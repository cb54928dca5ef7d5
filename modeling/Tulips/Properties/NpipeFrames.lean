import Tulips.Transport.Npipe

/-!
# What the named-pipe device delivers

The device takes every read that returns something for complete. It delivers the
frames of its peer just when every read finds all bytes it asks for.
-/

namespace Tulips.Npipe

/-! ## What should be delivered -/

/-- The lengths that were used, each with the bytes it was read from. -/
def lengths : List Event → List (List UInt8 × UInt32) :=
  List.filterMap fun
    | .length found len => some (found, len)
    | .process _ _ => none

/-- The frames that were processed, each with its length. -/
def processed : List Event → List (UInt32 × List UInt8)
  | [] => []
  | .length _ _ :: events => processed events
  | .process len frame :: events => (len, frame) :: processed events

/-- Exactly the frames are processed, in order, and the lengths used are theirs,
read as a whole and not beyond the receive buffer. -/
structure Faithful (frames : List (List UInt8)) (events : List Event) : Prop where
  lengths : (lengths events).map Prod.snd = frames.map fun frame => UInt32.ofNat frame.length
  whole : ∀ used ∈ Npipe.lengths events, used.1.length = 4
  bounded : ∀ used ∈ Npipe.lengths events, used.2.toNat ≤ bufLen
  processed : processed events = frames.map fun frame => (UInt32.ofNat frame.length, frame)

/-- How many bytes the reads for these frames ask for. -/
def asked (frames : List (List UInt8)) : List Nat := frames.flatMap fun frame => [4, frame.length]

/-- Every read that finds something finds all it asks for. -/
def Whole : List Nat → List Nat → Prop
  | [], _ => True
  | _ :: _, [] => False
  | n :: ns, k :: reads => if k = 0 then Whole (n :: ns) reads else n ≤ k ∧ Whole ns reads

section Events

variable {frames : List (List UInt8)} {found frame frame' : List UInt8} {len len' : UInt32}
  {events later : List Event}

@[simp] theorem lengths_length :
    lengths (.length found len :: events) = (found, len) :: lengths events := rfl

@[simp] theorem lengths_process :
    lengths (.process len frame :: events) = lengths events := rfl

@[simp] theorem processed_length :
    processed (.length found len :: events) = processed events := rfl

@[simp] theorem processed_process :
    processed (.process len frame :: events) = (len, frame) :: processed events := rfl

@[simp] theorem lengths_append : lengths (events ++ later) = lengths events ++ lengths later :=
  List.filterMap_append

@[simp] theorem processed_append :
    processed (events ++ later) = processed events ++ processed later := by
  induction events with
  | nil => rfl
  | cons event events ih =>
      cases event with
      | length => exact ih
      | process => rw [List.cons_append, processed_process, ih]; rfl

theorem Faithful.cons (h : Faithful frames events) (hlen : frame.length ≤ bufLen) :
    Faithful (frame :: frames) (.length (store32 (UInt32.ofNat frame.length))
      (UInt32.ofNat frame.length) :: .process (UInt32.ofNat frame.length) frame :: events) := by
  have hfit : (UInt32.ofNat frame.length).toNat ≤ bufLen := by
    rw [UInt32.toNat_ofNat_of_lt' (hlen.trans_lt (by decide))]
    exact hlen
  refine ⟨?_, ?_, ?_, ?_⟩
  · simp [h.lengths]
  · rintro used (_ | ⟨_, hused⟩)
    · rfl
    · exact h.whole used hused
  · rintro used (_ | ⟨_, hused⟩)
    · exact hfit
    · exact h.bounded used hused
  · simp [h.processed]

/-- What follows the first frame is about the other ones. -/
theorem Faithful.tail
    (h : Faithful (frame :: frames) (.length found len :: .process len' frame' :: events)) :
    Faithful frames events where
  lengths := (List.cons.inj h.lengths).2
  whole used hused := h.whole used (List.mem_cons_of_mem _ hused)
  bounded used hused := h.bounded used (List.mem_cons_of_mem _ hused)
  processed := (List.cons.inj h.processed).2

end Events

/-! ## Polls -/

section Polls

variable {proc : Processor} {dev : Device} {pipe : BytePipe} {frames : List (List UInt8)}

/-- How many bytes reading with these lengths can take from the stream. -/
def taken (used : List (List UInt8 × UInt32)) : Nat :=
  (used.map fun u => u.1.length + u.2.toNat).sum

theorem payload_split (proc : Processor) (dev : Device) (len : UInt32) (pipe : BytePipe) :
    pipe.content.length ≤ (dev.payload proc len pipe).pipe.content.length + len.toNat ∧
      lengths (dev.payload proc len pipe).events = [] ∧
      (processed (dev.payload proc len pipe).events).length ≤ 1 := by
  have hsplit := pipe.await_split len.toNat (pipe.reads.length + 1)
  obtain ⟨found, pipe', hawait⟩ : ∃ found pipe',
      pipe.await len.toNat (pipe.reads.length + 1) = (found, pipe') := ⟨_, _, rfl⟩
  rw [hawait] at hsplit
  have hcontent := congrArg List.length hsplit.1
  have hle := hsplit.2
  simp only [List.length_append] at hcontent hle
  have hfit : pipe.content.length ≤ pipe'.content.length + len.toNat := by omega
  rw [Device.payload, hawait]
  cases found with
  | never => exact ⟨hfit, rfl, Nat.zero_le _⟩
  | again => exact ⟨hfit, rfl, Nat.zero_le _⟩
  | bytes data =>
      cases data with
      | nil => exact ⟨hfit, rfl, Nat.zero_le _⟩
      | cons byte data => exact ⟨hfit, rfl, Nat.le_refl _⟩

/-- A poll takes no more from the stream than the length it uses, and processes
at most one frame for it. -/
theorem poll_split (proc : Processor) (dev : Device) (pipe : BytePipe) :
    pipe.content.length ≤
        (dev.poll proc pipe).pipe.content.length + taken (lengths (dev.poll proc pipe).events) ∧
      (processed (dev.poll proc pipe).events).length ≤
        (lengths (dev.poll proc pipe).events).length := by
  have hsplit := pipe.read_split 4
  obtain ⟨result, pipe', hread⟩ : ∃ result pipe', pipe.read 4 = (result, pipe') := ⟨_, _, rfl⟩
  rw [hread] at hsplit
  have hcontent := congrArg List.length hsplit.1
  simp only [List.length_append] at hcontent
  rw [Device.poll, hread]
  cases result with
  | never =>
      have hsame : pipe'.content = pipe.content := hsplit.1
      exact ⟨(congrArg List.length hsame).ge, Nat.le_refl _⟩
  | again =>
      have hsame : pipe'.content = pipe.content := hsplit.1
      exact ⟨(congrArg List.length hsame).ge, Nat.le_refl _⟩
  | bytes found =>
      cases found with
      | nil =>
          have hsame : pipe'.content = pipe.content := hsplit.1
          exact ⟨(congrArg List.length hsame).ge, Nat.le_refl _⟩
      | cons byte found =>
          obtain ⟨hle, hnone, hone⟩ :=
            payload_split proc dev (load32 (Bytes.fill (fun _ => 0) (byte :: found)) 0) pipe'
          have hfound : (byte :: found).length + pipe'.content.length = pipe.content.length :=
            hcontent
          simp only [lengths_length, hnone, processed_length, taken, List.map_cons, List.map_nil,
            List.sum_cons, List.sum_nil]
          exact ⟨by omega, hone⟩

theorem polls_split (proc : Processor) (n : Nat) (dev : Device) (pipe : BytePipe) :
    pipe.content.length ≤ (dev.polls proc n pipe).pipe.content.length +
        taken (lengths (dev.polls proc n pipe).events) ∧
      (processed (dev.polls proc n pipe).events).length ≤
        (lengths (dev.polls proc n pipe).events).length := by
  induction n generalizing dev pipe with
  | zero => exact ⟨Nat.le_refl _, Nat.le_refl _⟩
  | succ n ih =>
      obtain ⟨hle, hcount⟩ := poll_split proc dev pipe
      obtain ⟨hle', hcount'⟩ := ih (dev.poll proc pipe).dev (dev.poll proc pipe).pipe
      simp only [Device.polls, lengths_append, processed_append, List.length_append, taken,
        List.map_append, List.sum_append]
      simp only [taken] at hle hle'
      exact ⟨by omega, by omega⟩

theorem polls_succ {n : Nat} {events : List Event} {ret : Option Status} {dev' : Device}
    {pipe' : BytePipe} (h : dev.poll proc pipe = ⟨events, ret, dev', pipe'⟩) :
    (dev.polls proc (n + 1) pipe).events = events ++ (dev'.polls proc n pipe').events ∧
      (dev.polls proc (n + 1) pipe).pipe = (dev'.polls proc n pipe').pipe := by
  rw [Device.polls, h]
  exact ⟨rfl, rfl⟩

theorem polls_end (hreads : pipe.reads = []) (n : Nat) :
    dev.polls proc n pipe = ⟨[], none, dev, pipe⟩ := by
  have hpoll : dev.poll proc pipe = ⟨[], none, dev, pipe⟩ := by
    rw [Device.poll, BytePipe.read_end (by decide) hreads]
  induction n with
  | zero => rfl
  | succ n ih => rw [Device.polls, hpoll, ih]; rfl

theorem poll_again (proc : Processor) (dev : Device) {k : Nat} {reads : List Nat}
    (hreads : pipe.reads = k :: reads) (hnone : k = 0 ∨ pipe.content = []) :
    dev.poll proc pipe = ⟨[], some .noDataAvailable, dev, { pipe with reads := reads }⟩ := by
  rw [Device.poll, BytePipe.read_again (by decide) hreads hnone]

theorem poll_bytes (proc : Processor) (dev : Device) {k : Nat} {reads : List Nat}
    (hreads : pipe.reads = k :: reads) (hk : k ≠ 0) (hcontent : pipe.content ≠ []) :
    let found := pipe.content.take (min k 4)
    let len := load32 (Bytes.fill (fun _ => 0) found) 0
    let rest := dev.payload proc len
      { pipe with content := pipe.content.drop (min k 4), reads := reads }
    dev.poll proc pipe = { rest with events := .length found len :: rest.events } := by
  have htake : pipe.content.take (min k 4) ≠ [] := by
    rw [Ne, List.take_eq_nil_iff, not_or]
    exact ⟨by omega, hcontent⟩
  rw [Device.poll, BytePipe.read_bytes (by decide) hreads hk hcontent]
  cases hfound : pipe.content.take (min k 4) with
  | nil => exact absurd hfound htake
  | cons byte found => rfl

/-- A length that is read as a whole is the one that was written. -/
theorem load32_store32 (x : UInt32) : load32 (Bytes.fill (fun _ => 0) (store32 x)) 0 = x :=
  load32_eq rfl rfl rfl rfl

theorem payload_empty (proc : Processor) (dev : Device) (len : UInt32) (hlen : len.toNat = 0) :
    dev.payload proc len pipe = ⟨[], some .hardwareLinkLost, dev, pipe⟩ := by
  rw [Device.payload, hlen, BytePipe.await, BytePipe.read_zero]

/-- The payload is read by the first read that finds something. -/
theorem payload_cases (proc : Processor) (dev : Device) (pipe : BytePipe) {len : UInt32}
    {frame rest : List UInt8} (hlen : len.toNat = frame.length) (hframe : frame ≠ [])
    (hcontent : pipe.content = frame ++ rest) :
    ((∀ k ∈ pipe.reads, k = 0) ∧
        dev.payload proc len pipe = ⟨[], none, dev, { pipe with reads := [] }⟩) ∨
      ∃ z k reads, pipe.reads = List.replicate z 0 ++ k :: reads ∧ k ≠ 0 ∧
        ∃ frame' ret dev', (frame.length ≤ k → frame' = frame) ∧
          dev.payload proc len pipe = ⟨[.process len frame'], ret, dev', { pipe with
            content := (frame ++ rest).drop (min k frame.length)
            reads := reads }⟩ := by
  have hpos : len.toNat ≠ 0 := by
    rw [hlen]
    exact fun hzero => hframe (List.length_eq_zero_iff.mp hzero)
  have hne : pipe.content ≠ [] := by
    rw [hcontent]
    exact fun hnil => hframe (List.append_eq_nil_iff.mp hnil).1
  rcases BytePipe.await_cases hpos hne (Nat.lt_succ_self _) with
    ⟨hzero, hawait⟩ | ⟨z, k, reads, hreads, hk, hawait⟩
  · refine .inl ⟨hzero, ?_⟩
    rw [Device.payload, hawait]
  · rw [hcontent, hlen] at hawait
    let data := (frame ++ rest).take (min k frame.length)
    let buf := Bytes.fill dev.readBuffer data
    refine .inr ⟨z, k, reads, hreads, hk, Bytes.first buf len, some (proc len buf).1,
      ⟨(proc len buf).2⟩, fun hfit => ?_, ?_⟩
    · have hdata : data = frame := by
        simp only [data]
        rw [Nat.min_eq_right hfit, List.take_left]
      simp only [buf]
      rw [hdata, first_fill _ hlen]
    · have hdata : data ≠ [] := by
        rw [hlen] at hpos
        simp only [data, Ne, List.take_eq_nil_iff, not_or]
        exact ⟨by omega, hcontent ▸ hne⟩
      rw [Device.payload, hlen, hawait]
      cases hcase : (frame ++ rest).take (min k frame.length) with
      | nil => exact absurd hcase hdata
      | cons byte bytes =>
          simp only [buf, data]
          rw [hcase]

end Polls

/-! ## Every way of reading the stream -/

section Runs

variable {proc : Processor} {dev : Device} {pipe : BytePipe} {frames : List (List UInt8)}

theorem whole_replicate {a z : Nat} {ns reads : List Nat} :
    Whole (a :: ns) (List.replicate z 0 ++ reads) ↔ Whole (a :: ns) reads := by
  induction z with
  | zero => exact Iff.rfl
  | succ z ih =>
      rw [List.replicate_succ, List.cons_append, Whole, if_pos rfl]
      exact ih

theorem not_whole_zeros {a : Nat} {ns reads : List Nat} (h : ∀ k ∈ reads, k = 0) :
    ¬Whole (a :: ns) reads := by
  induction reads with
  | nil => exact id
  | cons k reads ih =>
      rw [Whole, if_pos (h k List.mem_cons_self)]
      exact ih fun j hj => h j (List.mem_cons_of_mem _ hj)

theorem encode_ne_nil {frame : List UInt8} {rest : List UInt8} : encode frame ++ rest ≠ [] := by
  simp [encode, store32]

/-- A stream whose length was read as a whole goes on with the frame. -/
theorem encode_split (frame rest : List UInt8) {k : Nat} (hk : 4 ≤ k) :
    (encode frame ++ rest).take (min k 4) = store32 (UInt32.ofNat frame.length) ∧
      (encode frame ++ rest).drop (min k 4) = frame ++ rest := by
  rw [Nat.min_eq_right hk]
  exact ⟨rfl, rfl⟩

/-- A poll that finds the whole length goes on with the payload. -/
theorem poll_whole (proc : Processor) (dev : Device) {frame rest : List UInt8} {k : Nat}
    {reads : List Nat} (hcontent : pipe.content = encode frame ++ rest)
    (hreads : pipe.reads = k :: reads) (hk : 4 ≤ k) :
    let len := UInt32.ofNat frame.length
    let after := dev.payload proc len { pipe with content := frame ++ rest, reads := reads }
    dev.poll proc pipe = { after with events := .length (store32 len) len :: after.events } := by
  have hne : pipe.content ≠ [] := by
    rw [hcontent]
    exact encode_ne_nil
  have hpoll := poll_bytes proc dev hreads (by omega) hne
  obtain ⟨htake, hdrop⟩ := encode_split frame rest hk
  rw [hcontent] at hpoll
  simp only [htake, hdrop, load32_store32] at hpoll
  exact hpoll

theorem length_toNat {frame : List UInt8} (h : frame.length ≤ bufLen) :
    (UInt32.ofNat frame.length).toNat = frame.length :=
  UInt32.toNat_ofNat_of_lt' (h.trans_lt (by decide))

theorem polls_nil (n : Nat) (hcontent : pipe.content = []) :
    (dev.polls proc n pipe).events = [] := by
  induction n generalizing pipe with
  | zero => rfl
  | succ n ih =>
      cases hreads : pipe.reads with
      | nil => rw [polls_end hreads]
      | cons k reads =>
          rw [Device.polls, poll_again proc _ hreads (.inr hcontent)]
          have hcontent' : ({ pipe with reads := reads } : BytePipe).content = [] := hcontent
          exact ih hcontent'

/-- When every read finds all it asks for, the frames are delivered. -/
theorem faithful_of_whole (n : Nat) (hlen : ∀ frame ∈ frames, frame.length ≤ bufLen)
    (hne : ∀ frame ∈ frames, frame ≠ []) (hcontent : pipe.content = frames.flatMap encode)
    (hwhole : Whole (asked frames) pipe.reads)
    (hread : (dev.polls proc n pipe).pipe.content = []) :
    Faithful frames (dev.polls proc n pipe).events := by
  -- Each poll finds nothing, or takes a whole frame.
  induction n generalizing frames dev pipe with
  | zero =>
      cases frames with
      | nil => exact ⟨rfl, nofun, nofun, rfl⟩
      | cons frame frames =>
          have hnil : pipe.content = [] := hread
          exact absurd (hcontent.symm.trans hnil) encode_ne_nil
  | succ n ih =>
      cases frames with
      | nil =>
          rw [polls_nil _ hcontent]
          exact ⟨rfl, nofun, nofun, rfl⟩
      | cons frame frames =>
          have hcontent' : pipe.content = encode frame ++ frames.flatMap encode := hcontent
          have hlen' : frame.length ≤ bufLen := hlen _ List.mem_cons_self
          have hne' : frame ≠ [] := hne _ List.mem_cons_self
          cases hreads : pipe.reads with
          | nil =>
              rw [hreads] at hwhole
              exact hwhole.elim
          | cons k reads =>
              rw [hreads] at hwhole
              by_cases hk : k = 0
              · have hnext : Whole (asked (frame :: frames)) reads := by
                  rw [hk] at hwhole
                  exact hwhole
                rw [Device.polls, poll_again proc _ hreads (.inl hk)] at hread ⊢
                have hsame : ({ pipe with reads := reads } : BytePipe).content =
                    (frame :: frames).flatMap encode := hcontent
                exact ih hlen hne hsame hnext hread
              · have hnext : 4 ≤ k ∧ Whole (frame.length :: asked frames) reads := by
                  simpa [asked, Whole, hk] using hwhole
                obtain ⟨hk4, hnext⟩ := hnext
                have hlen₀ := length_toNat hlen'
                have hpoll := poll_whole proc dev hcontent' hreads hk4
                rcases payload_cases proc dev { pipe with
                    content := frame ++ frames.flatMap encode, reads := reads } hlen₀ hne' rfl with
                  ⟨hzero, -⟩ | ⟨z, j, later, hsplit, hj, frame', ret, dev', hwith, hpayload⟩
                · exact absurd hnext (not_whole_zeros hzero)
                · have hsplit' : reads = List.replicate z 0 ++ j :: later := hsplit
                  rw [hsplit', whole_replicate, Whole, if_neg hj] at hnext
                  -- The first read that finds something of the payload finds the whole of it.
                  obtain ⟨hfit, hrest⟩ := hnext
                  simp only [hpayload, hwith hfit] at hpoll
                  obtain ⟨hevents, hpipe⟩ := polls_succ (n := n) hpoll
                  rw [hpipe] at hread
                  rw [hevents]
                  have hdrop : (frame ++ frames.flatMap encode).drop (min j frame.length) =
                      frames.flatMap encode := by
                    rw [Nat.min_eq_right hfit, List.drop_left]
                  exact Faithful.cons (ih (fun f hf => hlen f (List.mem_cons_of_mem _ hf))
                    (fun f hf => hne f (List.mem_cons_of_mem _ hf)) hdrop hrest hread) hlen'

/-- Reading with the lengths of the frames takes at most their encodings. -/
theorem taken_le {used : List (List UInt8 × UInt32)}
    (hlen : ∀ frame ∈ frames, frame.length ≤ bufLen)
    (hused : used.map Prod.snd = frames.map fun frame => UInt32.ofNat frame.length)
    (hwhole : ∀ u ∈ used, u.1.length = 4) : taken used = (frames.flatMap encode).length := by
  induction frames generalizing used with
  | nil =>
      rw [List.map_nil, List.map_eq_nil_iff] at hused
      rw [hused]
      rfl
  | cons frame frames ih =>
      cases used with
      | nil => simp at hused
      | cons u used =>
          rw [List.map_cons, List.map_cons, List.cons_eq_cons] at hused
          have hrest := ih (fun f hf => hlen f (List.mem_cons_of_mem _ hf)) hused.2
            fun v hv => hwhole v (List.mem_cons_of_mem _ hv)
          have hfirst : u.2.toNat = frame.length := by
            rw [hused.1, length_toNat (hlen _ List.mem_cons_self)]
          have hfour := hwhole u List.mem_cons_self
          simp only [taken] at hrest
          simp only [taken, List.map_cons, List.sum_cons, hrest, hfour, hfirst,
            List.flatMap_cons, List.length_append, encode, store32, List.length_cons,
            List.length_nil]

/-- When the frames are delivered, every read has found all it asked for. -/
theorem whole_of_faithful (n : Nat) (hlen : ∀ frame ∈ frames, frame.length ≤ bufLen)
    (hcontent : pipe.content = frames.flatMap encode)
    (hread : (dev.polls proc n pipe).pipe.content = [])
    (h : Faithful frames (dev.polls proc n pipe).events) :
    (∀ frame ∈ frames, frame ≠ []) ∧ Whole (asked frames) pipe.reads := by
  -- Each poll tells whether its own reads were whole.
  induction n generalizing frames dev pipe with
  | zero =>
      cases frames with
      | nil => exact ⟨nofun, by simp [asked, Whole]⟩
      | cons frame frames =>
          have hnil : pipe.content = [] := hread
          exact absurd (hcontent.symm.trans hnil) encode_ne_nil
  | succ n ih =>
      cases frames with
      | nil => exact ⟨nofun, by simp [asked, Whole]⟩
      | cons frame frames =>
          have hlen' : frame.length ≤ bufLen := hlen _ List.mem_cons_self
          have hcontent' : pipe.content = encode frame ++ frames.flatMap encode := hcontent
          have hlens : ∀ f ∈ frames, f.length ≤ bufLen :=
            fun f hf => hlen f (List.mem_cons_of_mem _ hf)
          have hlen₀ := length_toNat hlen'
          have hstream : pipe.content ≠ [] := by
            rw [hcontent]
            exact encode_ne_nil
          cases hreads : pipe.reads with
          | nil =>
              rw [polls_end hreads] at hread
              exact absurd hread hstream
          | cons k reads =>
              by_cases hk : k = 0
              · rw [Device.polls, poll_again proc _ hreads (.inl hk)] at hread h
                have hsame : ({ pipe with reads := reads } : BytePipe).content =
                    (frame :: frames).flatMap encode := hcontent
                obtain ⟨hne, hwhole⟩ := ih hlen hsame hread h
                refine ⟨hne, ?_⟩
                rw [hk]
                exact hwhole
              · -- The length was read as a whole, since it is used.
                have hk4 : 4 ≤ k := by
                  rw [Device.polls, poll_bytes proc _ hreads hk hstream] at h
                  have hfour := h.whole _ List.mem_cons_self
                  rw [List.length_take] at hfour
                  omega
                have hpoll := poll_whole proc dev hcontent' hreads hk4
                by_cases hne : frame = []
                · -- Nothing is processed for a length of zero.
                  rw [hne] at hpoll
                  simp only [payload_empty proc dev
                    (UInt32.ofNat ([] : List UInt8).length) rfl] at hpoll
                  obtain ⟨hevents, -⟩ := polls_succ (n := n) hpoll
                  rw [hevents] at h
                  have hlengths := congrArg List.length h.lengths
                  have hprocessed := congrArg List.length h.processed
                  have hcount := (polls_split proc n dev
                    { pipe with content := [] ++ frames.flatMap encode, reads := reads }).2
                  simp only [List.cons_append, List.nil_append, lengths_length, processed_length,
                    List.map_cons, List.length_cons, List.length_map] at hlengths hprocessed hcount
                  omega
                · rcases payload_cases proc dev { pipe with
                      content := frame ++ frames.flatMap encode, reads := reads } hlen₀ hne rfl with
                    ⟨hzero, hpayload⟩ | ⟨z, j, later, hsplit, hj, frame', ret, dev', -, hpayload⟩
                  -- The reads end before the payload is found, and the stream is left unread.
                  · simp only [hpayload] at hpoll
                    obtain ⟨-, hpipe⟩ := polls_succ (n := n) hpoll
                    rw [hpipe, polls_end rfl] at hread
                    exact absurd (List.append_eq_nil_iff.mp hread).1 hne
                  · simp only [hpayload] at hpoll
                    obtain ⟨hevents, hpipe⟩ := polls_succ (n := n) hpoll
                    let next : BytePipe := { pipe with
                      content := (frame ++ frames.flatMap encode).drop (min j frame.length)
                      reads := later }
                    rw [hevents] at h
                    rw [hpipe] at hread
                    have hrest : Faithful frames (dev'.polls proc n next).events := Faithful.tail h
                    have hnext : (dev'.polls proc n next).pipe.content = [] := hread
                    by_cases hfit : frame.length ≤ j
                    · have hdrop : next.content = frames.flatMap encode := by
                        simp only [next]
                        rw [Nat.min_eq_right hfit, List.drop_left]
                      obtain ⟨hnes, hwhole⟩ := ih hlens hdrop hnext hrest
                      refine ⟨List.forall_mem_cons.mpr ⟨hne, hnes⟩, ?_⟩
                      have hsplit' : reads = List.replicate z 0 ++ j :: later := hsplit
                      have hframe : Whole (frame.length :: asked frames) reads := by
                        rw [hsplit', whole_replicate, Whole, if_neg hj]
                        exact ⟨hfit, hwhole⟩
                      simpa [asked, Whole, hk] using ⟨hk4, hframe⟩
                    · -- What is left of the frame is never read with the other lengths.
                      have hleft : next.content.length =
                          frame.length + (frames.flatMap encode).length - min j frame.length := by
                        simp only [next]
                        rw [List.length_drop, List.length_append]
                      have hle := (polls_split proc n dev' next).1
                      rw [hnext, taken_le hlens hrest.lengths hrest.whole, hleft,
                        List.length_nil] at hle
                      omega

end Runs

/-- For frames committed one after the other, and a stream that is read to its
end: the peer delivers exactly these frames if and only if none of them is empty
and every read that finds something finds all it asks for. -/
theorem faithful_iff (proc : Processor) (dev : Device) (frames : List (List UInt8))
    (hlen : ∀ frame ∈ frames, frame.length ≤ bufLen) (reads : List Nat)
    (writes : List (Option Nat)) (pipe : BytePipe)
    (hcommit : commits frames ⟨[], reads, writes⟩ = some pipe) (n : Nat)
    (hread : (dev.polls proc n pipe).pipe.content = []) :
    Faithful frames (dev.polls proc n pipe).events ↔
      (∀ frame ∈ frames, frame ≠ []) ∧ Whole (asked frames) reads := by
  obtain ⟨hcontent, hreads⟩ := commits_content hlen hcommit
  have hreads' : pipe.reads = reads := hreads
  rw [← hreads']
  constructor
  · exact whole_of_faithful n hlen hcontent hread
  · rintro ⟨hne, hwhole⟩
    exact faithful_of_whole n hlen hne hcontent hwhole hread

/-- A processor that leaves the receive buffer alone. -/
def accept : Processor := fun _ buf => (.ok, buf)

/-- The receive buffer of a new device. -/
def cleared : Device := ⟨fun _ => 0⟩

/-- Two frames, the first of which is waited for and written in pieces. -/
theorem faithful_iff_pair :
    let pipe : BytePipe := ⟨[2, 0, 0, 0, 1, 2, 1, 0, 0, 0, 3], [0, 4, 0, 2, 4, 1], []⟩
    Faithful [[1, 2], [3]] (cleared.polls accept 4 pipe).events ↔
      (∀ frame ∈ [[1, 2], [3]], frame ≠ ([] : List UInt8)) ∧
        Whole (asked [[1, 2], [3]]) [0, 4, 0, 2, 4, 1] :=
  faithful_iff accept cleared [[1, 2], [3]] (by decide) [0, 4, 0, 2, 4, 1]
    [some 3, some 1, some 9, some 4, some 1] _ rfl 4 (by decide)

/-- A frame of two bytes is read one byte at a time: the first byte is taken for
the frame and the second one for the next length. -/
theorem not_faithful : ¬ ∀ (proc : Processor) (dev : Device) (frames : List (List UInt8)),
    (∀ frame ∈ frames, frame.length ≤ bufLen) → ∀ (reads : List Nat)
      (writes : List (Option Nat)) (pipe : BytePipe),
      commits frames ⟨[], reads, writes⟩ = some pipe → ∀ n,
        (dev.polls proc n pipe).pipe.content = [] →
          Faithful frames (dev.polls proc n pipe).events := by
  intro hall
  have h := hall accept cleared [[1, 2]] (by decide) [4, 1, 1] [some 4, some 2] _ rfl 2 (by decide)
  have hprocessed := h.processed
  revert hprocessed
  decide

end Tulips.Npipe
