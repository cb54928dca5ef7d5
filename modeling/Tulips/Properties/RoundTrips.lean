import Tulips.Machine.Testbed

/-!
# The round-trip estimator

The estimator averages the measured times and their deviations in eight bits. Each
sample is bounded by the time-out the last one has led to, so that what has been
measured so far decides whether the next value fits.
-/

namespace Tulips.Tcpv4

/-! ## The estimator on unbounded integers -/

/-- The averages of the measured times and of their deviations, eight and four
times as large as they are, and the time-out. -/
structure Estimate where
  sa : Int
  sv : Int
  rto : Int

namespace Estimate

/-- How far a measured time is from the average. -/
def error (x : Estimate) (timer : Int) : Int := x.rto - timer - x.sa / 2 ^ 3

def update (x : Estimate) (timer : Int) : Estimate where
  sa := x.sa + x.error timer
  sv := x.sv + ((x.error timer).natAbs - x.sv / 2 ^ 2)
  rto := (x.sa + x.error timer) / 2 ^ 3 + (x.sv + ((x.error timer).natAbs - x.sv / 2 ^ 2))

end Estimate

/-- The values of `int8_t`. -/
def Signed (k : Int) : Prop := -128 ≤ k ∧ k ≤ 127

/-- The values of `uint8_t`. -/
def Unsigned (k : Int) : Prop := 0 ≤ k ∧ k ≤ 255

/-- Every value the code stores while it computes an update has room. -/
structure Estimate.Representable (x : Estimate) (timer : Int) : Prop where
  measured : Signed (x.rto - timer)
  error : Signed (x.error timer)
  deviation : Signed (x.error timer).natAbs
  change : Signed ((x.error timer).natAbs - x.sv / 2 ^ 2)
  sa : Unsigned (x.update timer).sa
  sv : Unsigned (x.update timer).sv
  rto : Unsigned (x.update timer).rto

namespace Connection

def estimate (e : Connection) : Estimate := ⟨e.sa.toNat, e.sv.toNat, e.rto.toNat⟩

/-! ## Samples -/

/-- An acknowledgement is taken as a sample when the timer stands at `timer`: the
housekeeping of the first segment it clears. -/
def sampled (e : Connection) (timer : UInt8) : Connection :=
  { e with timer := timer, nrtx := 0, ackdata := false }.noteAck

/-- Every acknowledgement taken as a sample is one. -/
theorem noteAck_sampled {e : Connection} (hnews : e.ackdata = false) (hnrtx : e.nrtx = 0) :
    e.noteAck = e.sampled e.timer := by
  have hsame : { e with timer := e.timer, nrtx := 0, ackdata := false } = e := by
    rw [← hnews, ← hnrtx]
  rw [sampled, hsame]

/-- So is a change of the window, as far as the estimator and the timer go. -/
theorem noteWindow_sampled {e : Connection} {wnd : UInt16} (hwnd : e.window ≠ e.windowOf wnd)
    (hnrtx : e.nrtx = 0) : (e.noteWindow wnd).estimate = (e.sampled e.timer).estimate ∧
      (e.noteWindow wnd).timer = (e.sampled e.timer).timer := by
  unfold noteWindow
  rw [if_pos hwnd, if_pos hnrtx]
  exact ⟨rfl, rfl⟩

/-- The timer can stand there when a sample is taken. -/
def Sample (e : Connection) (timer : UInt8) : Prop := 1 ≤ timer ∧ timer ≤ e.rto

/-- The update is the one on integers, nothing wraps, and the timer is not armed with zero. -/
structure Exact (e : Connection) (timer : UInt8) : Prop where
  estimate : (e.sampled timer).estimate = e.estimate.update timer.toNat
  representable : e.estimate.Representable timer.toNat
  armed : 1 ≤ (e.sampled timer).timer

/-- The measured time has room in `int8_t`, and the average with it in `uint8_t`. -/
def Fits (e : Connection) (timer : UInt8) : Prop :=
  e.rto.toNat - timer.toNat ≤ 127 ∧
    e.sa.toNat - e.sa.toNat / 2 ^ 3 + (e.rto.toNat - timer.toNat) ≤ 255

/-- A property of every sample of a sequence. -/
def Along (P : Connection → UInt8 → Prop) : Connection → List UInt8 → Prop
  | _, [] => True
  | e, timer :: timers => P e timer ∧ Along P (e.sampled timer) timers

instance (e : Connection) (timer : UInt8) : Decidable (e.Sample timer) :=
  inferInstanceAs (Decidable (_ ∧ _))

instance (e : Connection) (timer : UInt8) : Decidable (e.Fits timer) :=
  inferInstanceAs (Decidable (_ ∧ _))

/-- Whether a sequence of samples has a property is found by taking them. -/
def Along.decide {P : Connection → UInt8 → Prop} [∀ e timer, Decidable (P e timer)] :
    (e : Connection) → (timers : List UInt8) → Decidable (e.Along P timers)
  | _, [] => inferInstanceAs (Decidable True)
  | e, timer :: timers =>
      have : Decidable ((e.sampled timer).Along P timers) := Along.decide _ timers
      inferInstanceAs (Decidable (P e timer ∧ _))

instance {P : Connection → UInt8 → Prop} [∀ e timer, Decidable (P e timer)] (e : Connection)
    (timers : List UInt8) : Decidable (e.Along P timers) := Along.decide e timers

/-- The estimator as both ways of opening a connection leave it. -/
def Fresh (e : Connection) : Prop := e.sa = 0 ∧ (e.sv = 4 ∨ e.sv = 16) ∧ e.rto = Tcpv4.rto

/-! ## Eight bits -/

theorem toInt_toInt8 {x : UInt8} (h : x.toNat ≤ 127) : x.toInt8.toInt = x.toNat := by
  have hmod : x.toInt8.toInt = (x.toNat : Int).bmod (2 ^ 8) := BitVec.toInt_eq_toNat_bmod _
  rw [hmod]
  apply Int.bmod_eq_of_le <;> omega

theorem toNat_toUInt8 (m : Int8) : (m.toUInt8.toNat : Int) = m.toInt % 2 ^ 8 := by
  have hlt := m.toUInt8.toNat_lt
  have hmod : m.toInt = (m.toUInt8.toNat : Int).bmod 256 := BitVec.toInt_eq_toNat_bmod _
  have hkept : (m.toUInt8.toNat : Int).bmod 256 % 256 = (m.toUInt8.toNat : Int) % 256 :=
    Int.bmod_emod
  omega

theorem toInt_sub {a b : Int8} (h : Signed (a.toInt - b.toInt)) :
    (a - b).toInt = a.toInt - b.toInt := by
  obtain ⟨hlo, hhi⟩ := h
  rw [Int8.toInt_sub]
  apply Int.bmod_eq_of_le <;> omega

theorem toInt_abs {m : Int8} (h : -127 ≤ m.toInt) :
    (if m < 0 then -m else m).toInt = m.toInt.natAbs := by
  have hhi := m.toInt_lt
  split
  · next hneg =>
      rw [Int8.lt_iff_toInt_lt, Int8.toInt_zero] at hneg
      rw [Int8.toInt_neg, Int.bmod_eq_of_le (by omega) (by omega)]
      omega
  · next hneg =>
      rw [Int8.lt_iff_toInt_lt, Int8.toInt_zero] at hneg
      omega

/-- Adding a signed value to an unsigned one. -/
theorem toNat_add_toUInt8 {x : UInt8} {m : Int8} (h : Unsigned (x.toNat + m.toInt)) :
    ((x + m.toUInt8).toNat : Int) = x.toNat + m.toInt := by
  obtain ⟨hlo, hhi⟩ := h
  have hm := toNat_toUInt8 m
  rw [UInt8.toNat_add]
  omega

theorem toNat_shiftRight (x : UInt8) :
    (x >>> 2).toNat = x.toNat / 2 ^ 2 ∧ (x >>> 3).toNat = x.toNat / 2 ^ 3 := by
  constructor <;>
    rw [UInt8.toNat_shiftRight, Nat.shiftRight_eq_div_pow] <;>
    rfl

variable {e : Connection} {timer : UInt8}

/-- Where every value has room, the code computes the values of the integers. -/
theorem estimate_sampled (hs : e.Sample timer) (h : e.estimate.Representable timer.toNat) :
    (e.sampled timer).estimate = e.estimate.update timer.toNat := by
  obtain ⟨hmeasured, herror, hdeviation, hchange, hsa, hsv, hrto⟩ := h
  have hle : timer.toNat ≤ e.rto.toNat := UInt8.le_iff_toNat_le.mp hs.2
  have hlt := e.sa.toNat_lt
  have hlt' := e.sv.toNat_lt
  have hm : (e.rto - timer).toInt8.toInt = e.estimate.rto - timer.toNat := by
    have hsub : (e.rto - timer).toNat = e.rto.toNat - timer.toNat :=
      UInt8.toNat_sub_of_le _ _ hs.2
    have hhi := hmeasured.2
    simp only [estimate] at hhi ⊢
    rw [toInt_toInt8 (by omega), hsub]
    omega
  have ha : (e.sa >>> 3).toInt8.toInt = e.estimate.sa / 2 ^ 3 := by
    have hshift := (toNat_shiftRight e.sa).2
    rw [toInt_toInt8 (by omega), hshift]
    rfl
  have hv : (e.sv >>> 2).toInt8.toInt = e.estimate.sv / 2 ^ 2 := by
    have hshift := (toNat_shiftRight e.sv).1
    rw [toInt_toInt8 (by omega), hshift]
    rfl
  -- The error, its size, and what the deviation changes by.
  generalize hm₁ : (e.rto - timer).toInt8 - (e.sa >>> 3).toInt8 = m₁
  have herr : m₁.toInt = e.estimate.error timer.toNat := by
    rw [← hm₁, toInt_sub (by rw [hm, ha]; exact herror), hm, ha]
    rfl
  generalize hm₂ : (if m₁ < 0 then -m₁ else m₁) = m₂
  have habs : m₂.toInt = (e.estimate.error timer.toNat).natAbs := by
    have hhi := hdeviation.2
    rw [← hm₂, toInt_abs (by rw [herr]; omega), herr]
  generalize hm₃ : m₂ - (e.sv >>> 2).toInt8 = m₃
  have hchg : m₃.toInt = (e.estimate.error timer.toNat).natAbs - e.estimate.sv / 2 ^ 2 := by
    rw [← hm₃, toInt_sub (by rw [habs, hv]; exact hchange), habs, hv]
  have hsa' : ((e.sa + m₁.toUInt8).toNat : Int) = (e.estimate.update timer.toNat).sa := by
    rw [toNat_add_toUInt8 (by rw [herr]; exact hsa), herr]
    rfl
  have hsv' : ((e.sv + m₃.toUInt8).toNat : Int) = (e.estimate.update timer.toNat).sv := by
    rw [toNat_add_toUInt8 (by rw [hchg]; exact hsv), hchg]
    rfl
  have hrto' : (((e.sa + m₁.toUInt8) >>> 3 + (e.sv + m₃.toUInt8)).toNat : Int) =
      (e.estimate.update timer.toNat).rto := by
    have hshift := (toNat_shiftRight (e.sa + m₁.toUInt8)).2
    have hsum : (e.estimate.update timer.toNat).rto =
        (e.estimate.update timer.toNat).sa / 2 ^ 3 + (e.estimate.update timer.toNat).sv := rfl
    have hhi := hrto.2
    rw [UInt8.toNat_add, hshift]
    omega
  have hsampled : (e.sampled timer).estimate = ⟨(e.sa + m₁.toUInt8).toNat,
      (e.sv + m₃.toUInt8).toNat,
      ((e.sa + m₁.toUInt8) >>> 3 + (e.sv + m₃.toUInt8)).toNat⟩ := by
    rw [← hm₃, ← hm₂, ← hm₁]
    rfl
  rw [hsampled, hsa', hsv', hrto']

/-! ## Sequences of samples -/

/-- What the samples so far have led to. The average of the deviations grows with
the average of the times. -/
structure Bounded (e : Connection) : Prop where
  sv_pos : 1 ≤ e.sv.toNat
  sv_le : 6 * e.sv.toNat ≤ 5 * e.sa.toNat + 150
  rto_pos : 1 ≤ e.rto.toNat
  rto_le : e.rto.toNat ≤ e.sa.toNat / 2 ^ 3 + e.sv.toNat

theorem Fresh.bounded (h : e.Fresh) : e.Bounded := by
  obtain ⟨hsa, hsv, hrto⟩ := h
  rcases hsv with hsv | hsv <;> constructor <;> simp [hsa, hsv, hrto, Tcpv4.rto]

theorem Bounded.representable (h : e.Bounded) (hs : e.Sample timer) (hfits : e.Fits timer) :
    e.estimate.Representable timer.toNat := by
  obtain ⟨hpos, hle, hrpos, hrle⟩ := h
  obtain ⟨hmeasured, hsum⟩ := hfits
  have htimer : 1 ≤ timer.toNat := UInt8.le_iff_toNat_le.mp hs.1
  have htimer' : timer.toNat ≤ e.rto.toNat := UInt8.le_iff_toNat_le.mp hs.2
  have hlt := e.sa.toNat_lt
  constructor <;>
    simp only [Signed, Unsigned, Estimate.update, Estimate.error, estimate] <;>
    omega

theorem Bounded.sampled (h : e.Bounded) (hs : e.Sample timer) (hfits : e.Fits timer) :
    (e.sampled timer).Bounded := by
  have heq := estimate_sampled hs (h.representable hs hfits)
  obtain ⟨hpos, hle, hrpos, hrle⟩ := h
  obtain ⟨hmeasured, hsum⟩ := hfits
  have htimer : 1 ≤ timer.toNat := UInt8.le_iff_toNat_le.mp hs.1
  have htimer' : timer.toNat ≤ e.rto.toNat := UInt8.le_iff_toNat_le.mp hs.2
  have hlt := e.sa.toNat_lt
  simp only [estimate, Estimate.update, Estimate.error, Estimate.mk.injEq] at heq
  obtain ⟨hsa, hsv, hrto⟩ := heq
  rcases Int.natAbs_eq (e.rto.toNat - timer.toNat - e.sa.toNat / 2 ^ 3 : Int) with habs | habs <;>
    constructor <;> omega

theorem Bounded.exact_iff (h : e.Bounded) (hs : e.Sample timer) :
    e.Exact timer ↔ e.Fits timer := by
  constructor
  · rintro ⟨-, hrep, -⟩
    have htimer : timer.toNat ≤ e.rto.toNat := UInt8.le_iff_toNat_le.mp hs.2
    have hmeasured := hrep.measured.2
    have hsum := hrep.sa.2
    simp only [Estimate.update, Estimate.error, estimate] at hmeasured hsum
    exact ⟨by omega, by omega⟩
  · intro hfits
    have hrep := h.representable hs hfits
    refine ⟨estimate_sampled hs hrep, hrep, ?_⟩
    exact UInt8.le_iff_toNat_le.mpr (h.sampled hs hfits).rto_pos

/-- Among samples that are bounded by the time-out, the computation is exact as
long as they fit. -/
theorem Bounded.along_iff (h : e.Bounded) {timers : List UInt8} (hs : e.Along Sample timers) :
    e.Along Exact timers ↔ e.Along Fits timers := by
  induction timers generalizing e with
  | nil => exact Iff.rfl
  | cons timer timers ih =>
      have hiff := h.exact_iff hs.1
      constructor
      · rintro ⟨hexact, hrest⟩
        have hfits := hiff.mp hexact
        exact ⟨hfits, (ih (h.sampled hs.1 hfits) hs.2).mp hrest⟩
      · rintro ⟨hfits, hrest⟩
        exact ⟨hiff.mpr hfits, (ih (h.sampled hs.1 hfits) hs.2).mpr hrest⟩

/-- From either start, the samples of a sequence are all taken exactly if and only
if all of them fit. -/
theorem samples_exact_iff {timers : List UInt8} (h : e.Fresh) (hs : e.Along Sample timers) :
    e.Along Exact timers ↔ e.Along Fits timers := h.bounded.along_iff hs

/-- A client before its first sample. -/
def client : Connection := { initial 0 with sv := 16, rto := Tcpv4.rto, timer := Tcpv4.rto }

/-- Five acknowledgements, each of which comes in the last tick of its time-out, are all
measured exactly. -/
theorem samples_exact_iff_client : client.Along Exact [1, 1, 1, 1, 1] := by
  have hfresh : client.Fresh := ⟨rfl, .inr rfl, rfl⟩
  have hsamples : client.Along Sample [1, 1, 1, 1, 1] := by decide
  exact (samples_exact_iff hfresh hsamples).mpr (by decide)

end Connection

/-! ### Acknowledgements that are always late -/

open Testbed in
/-- Send a byte that is acknowledged after the given number of ticks. -/
def lateAck (ackno : UInt32) (ticks : Nat) : List Processor.Op :=
  .send 0 1 (some fun _ => 0) 0 :: List.replicate ticks (.run true) ++
    [segment 5000 tcpAck 101 ackno []]

open Testbed in
/-- A client whose segments are acknowledged just before they would go out again,
with another one on its way. -/
def lateRun : List Processor.Op :=
  [connectFrom 5000, segment 5000 (tcpSyn ||| tcpAck) 100 1 []] ++ lateAck 2 2 ++ lateAck 3 13 ++
    lateAck 4 24 ++ lateAck 5 44 ++ lateAck 6 79 ++
    .send 0 1 (some fun _ => 0) 0 :: List.replicate 141 (.run true)

/-- The samples of the run have led to a time-out of 142 ticks. -/
theorem lateRun_reaches : ∃ p : Processor Testbed.Script Testbed.Answers 1,
    Processor.Reachable Testbed.env p ∧ (p.conns 0).hasOutstandingSegments = true ∧
      (p.conns 0).nrtx = 0 ∧ (p.conns 0).timer = 1 ∧ (p.conns 0).rto = 142 := by
  obtain ⟨p, -, hp⟩ := Testbed.reaches 1 .empty [] lateRun
    (fun p => (p.conns 0).hasOutstandingSegments = true ∧ (p.conns 0).nrtx = 0 ∧
      (p.conns 0).timer = 1 ∧ (p.conns 0).rto = 142)
    (by decide) (by decide +kernel)
  exact ⟨p, hp⟩

namespace Connection

/-- The sixth sample of a client whose acknowledgements come when one tick is left
wraps, and a client can get there. -/
theorem not_samples_exact :
    (¬ ∀ (e : Connection) (timers : List UInt8), e.Fresh → e.Along Sample timers →
      e.Along Exact timers) ∧
    ¬ ∀ (D H : Type) (n : Nat) (env : Env D H) (p : Processor D H n) (i : Fin n),
      Processor.Reachable env p → (p.conns i).hasOutstandingSegments = true →
        (p.conns i).nrtx = 0 → (p.conns i).Sample (p.conns i).timer →
          (p.conns i).Exact (p.conns i).timer := by
  obtain ⟨p, hp, hout, hnrtx, htimer, hrto⟩ := lateRun_reaches
  constructor
  · intro hall
    have hs : client.Along Sample [1, 1, 1, 1, 1, 1] := by
      simp only [Along, Sample]
      decide +kernel
    obtain ⟨-, -, -, -, -, hexact, -⟩ := hall client _ ⟨rfl, .inr rfl, rfl⟩ hs
    exact absurd hexact.representable.measured.2 (by decide +kernel)
  · intro hall
    have hexact := hall _ _ _ _ p 0 hp hout hnrtx (by rw [Sample, htimer, hrto]; decide)
    have hmeasured := hexact.representable.measured.2
    simp only [estimate, htimer, hrto] at hmeasured
    exact absurd hmeasured (by decide)

end Connection

end Tulips.Tcpv4
