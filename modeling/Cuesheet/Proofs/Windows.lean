import Cuesheet.Lowering.Schedule
import Cuesheet.Proofs.Number

/-!
# Windows

Times are floats, and a float can be infinite or undefined. `Engine.Window.ofTimes?` refuses such
times and those in the wrong order, but it asks only of the end whether it is finite. That is
enough: the start lies between zero and the end (`Valid.ordered`).

No law of float arithmetic is used anywhere. The one other thing that is asked of times is that the
latest of several finite ones is one of them and not before any other (`isLatest_foldl`).
-/

set_option autoImplicit false

namespace Cuesheet

/-! ## Floats between finite ones -/

section

open Float.Model

/-- Comparing goes by cases: what is not a number compares with nothing, and an infinity is above or
below all that is finite. -/
theorem Number.unpacked_isFinite_of_le_of_le {a b c : UnpackedFloat} (ha : a.isFinite = true)
    (hab : a.le b = true) (hbc : b.le c = true) (hc : c.isFinite = true) : b.isFinite = true := by
  cases b with
  | zero | finite => rfl
  | notANumber => cases a <;> cases hab
  | infinity sign =>
    -- Nothing finite is below the one infinity, or above the other.
    cases sign with
    | negative =>
      cases a with
      | infinity | notANumber => cases ha
      | zero | finite => cases hab
    | positive =>
      cases c with
      | infinity | notANumber => cases hc
      | zero | finite => cases hbc

end

/-- What lies between two finite floats is finite; in particular it is not undefined. -/
theorem Number.isFinite_of_le_of_le {a b c : Float} (ha : a.isFinite = true) (hab : a ≤ b)
    (hbc : b ≤ c) (hc : c.isFinite = true) : b.isFinite = true :=
  unpacked_isFinite_of_le_of_le ha (of_decide_eq_true hab) (of_decide_eq_true hbc) hc

/-! ## Valid windows -/

namespace Engine.Window

/-- The window is one that its times make. -/
def Valid (w : Window) : Prop := ofTimes? w.start w.finish = some w

theorem ofTimes?_eq_some_iff {start finish : Float} {w : Window} :
    ofTimes? start finish = some w ↔ w = ⟨start, finish⟩ ∧ w.Valid := by
  have hsome (h : ofTimes? start finish = some w) : w = ⟨start, finish⟩ := by
    unfold ofTimes? at h
    split at h
    · exact (Option.some.inj h).symm
    · cases h
  constructor
  · intro h
    obtain rfl := hsome h
    exact ⟨rfl, h⟩
  · rintro ⟨rfl, h⟩
    exact h

/-- **Both times of a valid window are finite, and they are in order.** The start is not tested for
being finite, but it is tested to lie between zero and the end. -/
theorem Valid.ordered {w : Window} (h : w.Valid) :
    w.start.isFinite = true ∧ w.finish.isFinite = true ∧ w.start ≤ w.finish := by
  unfold Valid ofTimes? at h
  split at h
  · rename_i htest
    simp only [Bool.and_eq_true, decide_eq_true_eq] at htest
    obtain ⟨⟨hpositive, horder⟩, hfinite⟩ := htest
    have hzero : (0.0 : Float).isFinite = true := by decide +kernel
    exact ⟨Number.isFinite_of_le_of_le hzero hpositive horder hfinite, hfinite, horder⟩
  · cases h

end Engine.Window

/-! ## The latest of several times -/

/-- The time is one of the list, and none of the list is later. -/
def IsLatest (times : List Float) (time : Float) : Prop :=
  time ∈ times ∧ ∀ other ∈ times, other ≤ time

theorem laterTime_cases (a b : Float) : laterTime a b = a ∨ laterTime a b = b := by
  unfold laterTime
  split
  · exact .inr rfl
  · exact .inl rfl

theorem isFinite_laterTime {a b : Float} (ha : a.isFinite = true) (hb : b.isFinite = true) :
    (laterTime a b).isFinite = true := by
  rcases laterTime_cases a b with h | h
  · rw [h]
    exact ha
  · rw [h]
    exact hb

/-- With times that are not numbers neither inequality would hold, so the later of two times is one
that is not before the other only among finite ones. -/
theorem le_laterTime {a b : Float} (ha : a.isFinite = true) (hb : b.isFinite = true) :
    a ≤ laterTime a b ∧ b ≤ laterTime a b := by
  unfold laterTime
  split
  · rename_i hle
    exact ⟨hle, Number.le_refl_of_isFinite hb⟩
  · rename_i hle
    exact ⟨Number.le_refl_of_isFinite ha, Number.le_of_not_le_of_isFinite ha hb hle⟩

/-- One step of the search for the latest time: the later of the first two stands for both of them.
The times have to be finite, as the order of others is not transitive. -/
theorem IsLatest.of_laterTime {first time latest : Float} {times : List Float}
    (h : IsLatest (laterTime first time :: times) latest) (hfirst : first.isFinite = true)
    (htime : time.isFinite = true) (htimes : ∀ other ∈ times, other.isFinite = true) :
    IsLatest (first :: time :: times) latest := by
  obtain ⟨hmem, hbound⟩ := h
  have hlater := isFinite_laterTime hfirst htime
  have hlatest : latest.isFinite = true := by
    rcases List.mem_cons.mp hmem with rfl | hmem
    · exact hlater
    · exact htimes latest hmem
  obtain ⟨hfirst_le, htime_le⟩ := le_laterTime hfirst htime
  have hlater_le : laterTime first time ≤ latest := hbound _ List.mem_cons_self
  refine ⟨?_, ?_⟩
  · rcases List.mem_cons.mp hmem with heq | hmem
    · rcases laterTime_cases first time with h | h
      · simp [heq, h]
      · simp [heq, h]
    · simp [hmem]
  · intro other hother
    rcases List.mem_cons.mp hother with rfl | hother
    · exact Number.le_trans_of_isFinite hfirst hlater hlatest hfirst_le hlater_le
    rcases List.mem_cons.mp hother with rfl | hother
    · exact Number.le_trans_of_isFinite htime hlater hlatest htime_le hlater_le
    · exact hbound other (List.mem_cons_of_mem _ hother)

/-- Going through finite times and keeping the later one each time gives the latest. What is kept
stays finite, which is what the comparisons behind it need. -/
theorem isLatest_foldl {first : Float} {times : List Float} (hfirst : first.isFinite = true)
    (htimes : ∀ time ∈ times, time.isFinite = true) :
    IsLatest (first :: times) (times.foldl laterTime first) := by
  induction times generalizing first with
  | nil =>
    refine ⟨List.mem_cons_self, ?_⟩
    intro other hother
    cases List.mem_singleton.mp hother
    exact Number.le_refl_of_isFinite hfirst
  | cons time times ih =>
    obtain ⟨htime, hrest⟩ := List.forall_mem_cons.mp htimes
    exact (ih (isFinite_laterTime hfirst htime) hrest).of_laterTime hfirst htime hrest

end Cuesheet
