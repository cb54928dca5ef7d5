import Mathlib.Data.Nat.ModEq
import Tulips.Ssl.Endpoint

/-!
# What a send reports

An endpoint passes the bytes of its user to `SSL_write` and reports its result as the
progress made. A failure is a negative number and becomes, as the length it is
reported for is unsigned, more progress than there are bytes.
-/

namespace Tulips.Ssl

open Program

/-! ## The report that is due -/

/-- The result of `SSL_write` in a send, if it is called. -/
def written? (w : World) (cookie : Option Nat) : Option Answer :=
  match cookie.bind w.contexts with
  | none => none
  | some c => if c.state = .ready ∧ c.blocked = false then w.openssl.head? else none

/-- How many bytes `SSL_write` has consumed: a result that is not positive is a
failure. -/
def Answer.consumed (a : Answer) : Nat := a.ret.toNat

/-- The result is one of a call with `len` bytes. -/
def Answer.FitsWrite (len : Nat) (a : Answer) : Prop := -2 ^ 31 ≤ a.ret ∧ a.ret ≤ len

/-- A send of `len` bytes reports what `SSL_write` has consumed; the ciphertext of it
is behind the one that was pending, and what is no longer pending has been sent by a
call that succeeded, which it has if the send has. -/
structure Reports (cookie : Option Nat) (len : Nat) (w : World) (ret : Status) (off : UInt32)
    (w' : World) : Prop where
  consumed : off.toNat = ((written? w cookie).map Answer.consumed).getD 0
  le : off.toNat ≤ len
  kept : ∀ key c, cookie = some key → w.contexts key = some c →
    ∃ c' stream, w'.contexts key = some c' ∧
      c.bout ++ ((written? w cookie).map Answer.out).getD [] = stream ++ c'.bout ∧
      (stream = [] ∨ ret = .ok ∧ ∃ rem, w.below.head? = some (.ok, rem) ∧ stream.length ≤ rem)

/-! ## Writing and flushing -/

section Calls

variable {key : Nat} {c : Context} {w w' : World}

theorem context_of_some (hc : w.contexts key = some c) : context key w = .ok c w := by
  unfold context
  rw [hc]

theorem sslWrite_spec {data : List UInt8} {a : Answer} (hc : w.contexts key = some c)
    (h : sslWrite key data w = .ok a w') :
    w.openssl.head? = some a ∧ w'.contexts key = some { c with bout := c.bout ++ a.out } ∧
      w'.below = w.below := by
  have hlogged : ({ w with log := .write key c.state data :: w.log } : World).contexts key =
      some c := hc
  unfold sslWrite openssl record at h
  rw [bind_of_ok (context_of_some hc), bind_update, bind_of_ok (context_of_some hlogged),
    bind_gets] at h
  cases hopenssl : w.openssl with
  | nil =>
      rw [show ({ w with log := _ : World}).openssl = w.openssl from rfl, hopenssl] at h
      cases h
  | cons answer rest =>
      rw [show ({ w with log := _ : World}).openssl = w.openssl from rfl, hopenssl] at h
      cases h
      exact ⟨rfl, if_pos rfl, rfl⟩

/-- What a flush takes off the write channel has been sent. -/
theorem flush_spec {ret : Status} (hc : w.contexts key = some c)
    (h : Endpoint.flush key w = .ok ret w') :
    ∃ c' stream, w'.contexts key = some c' ∧ c.bout = stream ++ c'.bout ∧
      (stream = [] ∨ ret = .ok ∧ ∃ rem, w.below.head? = some (.ok, rem) ∧ stream.length ≤ rem) := by
  unfold Endpoint.flush at h
  rw [bind_of_ok (context_of_some hc)] at h
  by_cases hempty : c.bout = []
  · rw [if_pos hempty] at h
    cases h
    exact ⟨c, [], hc, rfl, .inl rfl⟩
  · rw [if_neg hempty] at h
    obtain ⟨⟨res, rem⟩, w₁, hbelow, h⟩ := bind_eq_ok.mp h
    have hhead : w.below.head? = some (res, rem) := by
      unfold below at hbelow
      rw [bind_gets] at hbelow
      cases hw : w.below with
      | nil =>
          rw [hw] at hbelow
          cases hbelow
      | cons answer rest =>
          rw [hw] at hbelow
          cases hbelow
          rfl
    by_cases hres : res = .ok
    · simp only [hres, ne_eq, not_true_eq_false, if_false] at h
      cases h
      refine ⟨{ c with bout := c.bout.drop rem }, c.bout.take rem, if_pos rfl,
        (List.take_append_drop rem c.bout).symm, .inr ⟨rfl, rem, ?_, ?_⟩⟩
      · rw [hhead, hres]
      · rw [List.length_take]
        exact Nat.min_le_left _ _
    · simp only [ne_eq, hres, not_false_eq_true, if_true] at h
      cases h
      exact ⟨{ c with blocked := decide (ret = .operationInProgress) }, [], if_pos rfl, rfl,
        .inl rfl⟩

end Calls

/-! ## Sending -/

section Sending

variable {cookie : Option Nat} {data : List UInt8} {off off' : UInt32} {w w' : World} {ret : Status}

/-- What a send leaves behind, by what `SSL_write` has returned if it was called. -/
theorem send_spec (h : Endpoint.send cookie data off w = .ok (ret, off') w') :
    off' = (match written? w cookie with
      | none => off
      | some a => UInt32.ofInt a.ret) ∧
    ∀ key c, cookie = some key → w.contexts key = some c →
      ∃ c' stream, w'.contexts key = some c' ∧
        c.bout ++ ((written? w cookie).map Answer.out).getD [] = stream ++ c'.bout ∧
        (stream = [] ∨
          ret = .ok ∧ ∃ rem, w.below.head? = some (.ok, rem) ∧ stream.length ≤ rem) := by
  cases cookie with
  | none =>
      cases h
      exact ⟨rfl, fun _ _ hcookie => by cases hcookie⟩
  | some key =>
      obtain ⟨c, w₀, hcontext, h⟩ := bind_eq_ok.mp h
      unfold context at hcontext
      cases hc : w.contexts key with
      | none =>
          rw [hc] at hcontext
          cases hcontext
      | some c =>
          rw [hc] at hcontext
          cases hcontext
          -- Whether `SSL_write` is called is settled by the context.
          have hwritten : written? w (some key) =
              if c.state = .ready ∧ c.blocked = false then w.openssl.head? else none := by
            simp [written?, hc]
          by_cases hready : c.state = .ready ∧ c.blocked = false
          · rw [if_pos hready] at hwritten
            rw [if_neg (by simp [hready.1]), if_neg (by simp [hready.2])] at h
            obtain ⟨a, w₁, hwrite, h⟩ := bind_eq_ok.mp h
            obtain ⟨ret', w₂, hflush, h⟩ := bind_eq_ok.mp h
            cases h
            obtain ⟨hhead, hc₁, hbelow⟩ := sslWrite_spec hc hwrite
            obtain ⟨c', stream, hc', hbout, hstream⟩ := flush_spec hc₁ hflush
            rw [hhead] at hwritten
            rw [hbelow] at hstream
            refine ⟨by rw [hwritten], fun key' c₀ hkey hc₀ => ?_⟩
            cases hkey
            rw [hc] at hc₀
            cases hc₀
            refine ⟨c', stream, hc', ?_, hstream⟩
            rw [hwritten]
            exact hbout
          · -- Nothing is written.
            rw [if_neg hready] at hwritten
            have hsame : off' = off ∧ w' = w := by
              by_cases hstate : c.state = .ready
              · have hblocked : c.blocked = true := by
                  cases hb : c.blocked with
                  | true => rfl
                  | false => exact absurd ⟨hstate, hb⟩ hready
                rw [if_neg (by simp [hstate]), if_pos hblocked] at h
                cases h
                exact ⟨rfl, rfl⟩
              · rw [if_pos hstate] at h
                cases h
                exact ⟨rfl, rfl⟩
            obtain ⟨rfl, rfl⟩ := hsame
            refine ⟨by rw [hwritten], fun key' c₀ hkey hc₀ => ?_⟩
            cases hkey
            refine ⟨c₀, [], hc₀, ?_, .inl rfl⟩
            rw [hwritten]
            simp

/-- An unsigned number stands for a result of `SSL_write` unless it is negative. -/
theorem ofInt_consumed_iff {a : Answer} {len : Nat} (hlen : len < 2 ^ 32) (ha : a.FitsWrite len) :
    (UInt32.ofInt a.ret).toNat = a.consumed ↔ 0 ≤ a.ret := by
  obtain ⟨hlow, hhigh⟩ := ha
  rw [UInt32.ofInt, UInt32.toNat_ofNat', Answer.consumed]
  omega

/-- The report of a send is right exactly if `SSL_write` has not failed with a
negative number or, where it is not called, the caller has cleared the report. -/
theorem send_reports_iff (hlen : data.length < 2 ^ 32)
    (hfits : ∀ a, w.openssl.head? = some a → a.FitsWrite data.length)
    (h : Endpoint.send cookie data off w = .ok (ret, off') w') :
    Reports cookie data.length w ret off' w' ↔
      match written? w cookie with
      | none => off = 0
      | some a => 0 ≤ a.ret := by
  obtain ⟨hoff, hkept⟩ := send_spec h
  cases hwritten : written? w cookie with
  | none =>
      rw [hwritten] at hoff
      simp only at hoff ⊢
      subst hoff
      constructor
      · intro hreports
        have hconsumed := hreports.consumed
        rw [hwritten] at hconsumed
        exact UInt32.toNat_inj.mp hconsumed
      · rintro rfl
        exact ⟨by rw [hwritten]; rfl, Nat.zero_le _, hkept⟩
  | some a =>
      rw [hwritten] at hoff
      simp only at hoff ⊢
      have hhead : w.openssl.head? = some a := by
        unfold written? at hwritten
        split at hwritten
        · cases hwritten
        · split at hwritten
          · exact hwritten
          · cases hwritten
      have ha := hfits a hhead
      have hiff := ofInt_consumed_iff hlen ha
      rw [← hoff] at hiff
      constructor
      · intro hreports
        have hconsumed := hreports.consumed
        rw [hwritten] at hconsumed
        exact hiff.mp hconsumed
      · intro hnonneg
        have hconsumed := hiff.mpr hnonneg
        refine ⟨by rw [hwritten]; exact hconsumed, ?_, hkept⟩
        have hle := ha.2
        rw [hconsumed, Answer.consumed]
        omega

end Sending

/-! ## A full write channel -/

/-- A ready context with a byte pending, and an `SSL_write` that is about to return
the given result. -/
def pendingByte (a : Answer) : World where
  contexts _ := some ⟨.ready, [7], false⟩
  openssl := [a]
  delegate := []
  below := [(.ok, 1)]
  log := []

/-- Two bytes are written, of which the record goes behind the pending byte. -/
theorem send_reports_iff_two :
    let a : Answer := ⟨2, .none, [], [8, 9]⟩
    ∃ w', Endpoint.send (some 0) [1, 2] 0 (pendingByte a) = .ok (.ok, 2) w' ∧
      (Reports (some 0) 2 (pendingByte a) .ok 2 w' ↔ 0 ≤ a.ret) := by
  refine ⟨_, rfl, @send_reports_iff (some 0) [1, 2] 0 2 _ _ .ok (by decide) (fun a ha => ?_) rfl⟩
  cases ha
  exact ⟨by decide, by decide⟩

/-- When the write channel cannot take the record, the pending byte is sent and the
report says that 2^32 - 1 of the two bytes are. -/
theorem not_send_reports : ¬ ∀ (key : Nat) (data : List UInt8) (w w' : World) (ret : Status)
    (off : UInt32), (∀ a, w.openssl.head? = some a → a.FitsWrite data.length) →
      Endpoint.send (some key) data 0 w = .ok (ret, off) w' →
        Reports (some key) data.length w ret off w' := by
  intro hall
  have h := hall 0 [1, 2] (pendingByte ⟨-1, .wantWrite, [], []⟩) _ .ok 0xffffffff (fun a ha => by
    cases ha
    exact ⟨by decide, by decide⟩) rfl
  exact absurd h.le (by decide)

end Tulips.Ssl
