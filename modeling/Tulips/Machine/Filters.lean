import Tulips.Machine.Handshake
import Tulips.Machine.Runs

/-!
# The filters of the device

Which ports the device listens on, as its history has it: those it was asked to
listen on, and agreed to, since it was last told to stop.
-/

namespace Tulips.Tcpv4

variable {D H : Type}

/-- The ports the device listens on. -/
def filters : List Event → List Port
  | [] => []
  | .listen port ret :: log => if ret = .ok then (filters log).insert port else filters log
  | .unlisten port :: log => (filters log).filter (· ≠ port)
  | _ :: log => filters log

/-- The event is about the ports of the device. -/
def Event.isFilter : Event → Bool
  | .listen _ _ | .unlisten _ => true
  | _ => false

/-- The event neither is about the ports of the device nor opens a connection. -/
def Event.isQuiet : Event → Bool
  | .listen _ _ | .unlisten _ | .create _ _ _ _ => false
  | _ => true

theorem Event.isQuiet.isFilter {ev : Event} (h : ev.isQuiet = true) : ev.isFilter = false := by
  cases ev with
  | listen | unlisten => cases h
  | _ => rfl

theorem Event.isQuiet.creates {ev : Event} (h : ev.isQuiet = true) (id : UInt16) :
    ev.creates id = false := by
  cases ev with
  | create => cases h
  | _ => rfl

theorem filters_cons {ev : Event} (h : ev.isFilter = false) (log : List Event) :
    filters (ev :: log) = filters log := by
  cases ev with
  | listen | unlisten => cases h
  | _ => rfl

theorem filters_append_of_none {new log : List Event} (h : ∀ ev ∈ new, ev.isFilter = false) :
    filters (new ++ log) = filters log := by
  induction new with
  | nil => rfl
  | cons ev new ih =>
      rw [List.cons_append, filters_cons (h ev List.mem_cons_self),
        ih fun ev hev => h ev (List.mem_cons_of_mem _ hev)]

theorem filters_listen (port : Port) (log : List Event) :
    filters (.listen port .ok :: log) = (filters log).insert port := if_pos rfl

theorem filters_refused {port : Port} {ret : Status} (h : ret ≠ .ok) (log : List Event) :
    filters (.listen port ret :: log) = filters log := if_neg h

/-! ## Connections of clients -/

/-- A port has been registered. -/
def Event.registers : Event → Bool
  | .listen _ ret => ret == .ok
  | _ => false

/-- Whether the connection was last opened by `connect`, which registers its port
right before. -/
def clientOpened (id : UInt16) : List Event → Bool
  | [] => false
  | .create id' _ _ _ :: log =>
      if id' = id then log.head?.any Event.registers else clientOpened id log
  | _ :: log => clientOpened id log

theorem clientOpened_cons {id : UInt16} {ev : Event} (h : ev.creates id = false)
    (log : List Event) : clientOpened id (ev :: log) = clientOpened id log := by
  cases ev with
  | create id' iss buf leftover =>
      have hne : id' ≠ id := by simpa [Event.creates] using h
      rw [clientOpened, if_neg hne]
  | _ => rfl

theorem clientOpened_append {id : UInt16} {new log : List Event}
    (h : ∀ ev ∈ new, ev.creates id = false) :
    clientOpened id (new ++ log) = clientOpened id log := by
  induction new with
  | nil => rfl
  | cons ev new ih =>
      rw [List.cons_append, clientOpened_cons (h ev List.mem_cons_self),
        ih fun ev hev => h ev (List.mem_cons_of_mem _ hev)]

@[simp] theorem clientOpened_create (id : UInt16) (iss : UInt32) (buf : Nat) (leftover : Bool)
    (log : List Event) : clientOpened id (.create id iss buf leftover :: log) =
      log.head?.any Event.registers := if_pos rfl

/-! ## Preparing -/

/-- A buffer for no connection in particular: what the device hands out, and
nothing sent or listened to. -/
theorem prepareTo_departs (env : Env D H) (rhwaddr : Ethernet.Address) (ripaddr : Ipv4.Address)
    (w : World D H) :
    (∃ ret w', (env.device.prepare w.dev).1 = .error ret ∧
        Processor.prepareTo env rhwaddr ripaddr w = .ok (.error ret) w' ∧
        commits w'.log = commits w.log ∧ filters w'.log = filters w.log) ∨
      ∃ buf content w', (env.device.prepare w.dev).1 = .ok (buf, content) ∧
        Processor.prepareTo env rhwaddr ripaddr w = .ok (.ok ⟨buf, tcpOffset⟩) w' ∧
        commits w'.log = commits w.log ∧ filters w'.log = filters w.log ∧
        w'.dev = (env.device.prepare w.dev).2 := by
  let w₀ : World D H := { w with
    ip4to := { w.ip4to with proto := Ipv4.protoTcp, destAddress := ripaddr }
    ethto := { w.ethto with destAddress := rhwaddr } }
  obtain ⟨w', -, ⟨ret, hrun, -, hlog⟩ | ⟨buf, writes, hrun, -, hwrites, hlog⟩⟩ :=
    prepare_cases env none w₀
  · have hfilters : filters w'.log = filters w.log := by
      rw [hlog, filters_cons rfl]
    rcases prepare_departs env none w₀ with
      ⟨ret', w'', hret, hrun', hcommits, -⟩ | ⟨buf, content, w'', -, hrun', -⟩
    · rw [hrun] at hrun'
      cases hrun'
      exact .inl ⟨ret, w', hret, hrun, hcommits, hfilters⟩
    · rw [hrun] at hrun'
      cases hrun'
  · have hfilters : filters w'.log = filters w.log := by
      rw [hlog, filters_append_of_none fun ev hev => by rw [hwrites ev hev]; rfl, filters_cons rfl]
    rcases prepare_departs env none w₀ with
      ⟨ret', w'', -, hrun', -⟩ | ⟨buf', content, w'', hbuf, hrun', hcommits, -, -, hdev⟩
    · rw [hrun] at hrun'
      cases hrun'
    · rw [hrun] at hrun'
      cases hrun'
      exact .inr ⟨buf, content, w', hbuf, hrun, hcommits, hfilters, hdev⟩

end Tulips.Tcpv4
