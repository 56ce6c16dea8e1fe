import GrammarFormat.Command.Arguments
import Mathlib.Tactic.Common

/-!
# Requests

A request asks for nothing that was not given on the command line (`Reading.Recorded`), so what it asks for
has no conflicts (`conflicts_of_parse`).
-/

namespace GrammarFormat.Command

/-- Whether a request asks for what a parameter stands for. -/
def Request.asks (r : Request) : Parameter → Bool
  | .path => r.path?.isSome
  | .lines => r.lines?.isSome
  | .config => r.config?.isSome
  | .indent => r.indent?.isSome
  | .lineEnding => r.lineEnding?.isSome
  | .inPlace => r.inPlace
  | .check => r.check
  | .tokens => r.tokens
  | .verbose => r.verbose
  | .help | .version => false

namespace Reading

variable {st st' : Reading} {p q : Parameter} {value : String}

/-- What the request asks for was given. -/
def Recorded (st : Reading) : Prop :=
  ∀ p, st.request.asks p = true → p ∈ st.given

theorem asks_store {r r' : Request} (h : store r value p = .ok r') (hq : r'.asks q = true) :
    q = p ∨ r.asks q = true := by
  cases p with
  | lines =>
    rw [store] at h
    split at h
    · cases h
      cases q <;> first | exact .inl rfl | exact .inr hq
    · cases h
  | lineEnding =>
    rw [store] at h
    split at h
    · cases h
      cases q <;> first | exact .inl rfl | exact .inr hq
    · cases h
  | _ =>
    cases h
    cases q <;> first | exact .inl rfl | exact .inr hq

theorem bind_eq_ok {α β : Type} {x : Except Stop α} {f : α → Except Stop β} {b : β}
    (h : x >>= f = .ok b) : ∃ a, x = .ok a ∧ f a = .ok b := by
  cases x with
  | error e => cases h
  | ok a => exact ⟨a, rfl, h⟩

namespace Recorded

theorem take (h : st.Recorded) (hst : st.take p value = .ok st') : st'.Recorded := by
  rw [Reading.take] at hst
  split at hst
  · cases hst
  split at hst
  · rename_i hstore
    cases hst
    intro q hq
    rcases asks_store hstore hq with rfl | hq
    · exact List.mem_append_right _ (List.mem_singleton.2 rfl)
    · exact List.mem_append_left _ (h q hq)
  · cases hst

theorem settle (h : st.Recorded) (hst : st.settle = .ok st') : st'.Recorded := by
  rw [Reading.settle] at hst
  split at hst
  · cases hst
    exact h
  · cases hst
  · have h : { st with pending? := none }.Recorded := h
    exact h.take hst

theorem takeNow (h : st.Recorded) (hst : st.takeNow p value = .ok st') : st'.Recorded := by
  obtain ⟨st₁, hst₁, hst⟩ := bind_eq_ok hst
  have h := h.settle hst₁
  split at hst
  · cases hst
  · cases hst
  · exact h.take hst

theorem await (h : st.Recorded) (hst : st.await p = .ok st') : st'.Recorded := by
  obtain ⟨st₁, hst₁, hst⟩ := bind_eq_ok hst
  have h := h.settle hst₁
  cases hst
  exact h

theorem long {word : String} {value? : Option String} (h : st.Recorded)
    (hst : st.long word value? = .ok st') : st'.Recorded := by
  unfold Reading.long at hst
  split at hst
  · cases hst
  · split at hst
    · exact h.takeNow hst
    · cases hst
  · split at hst
    · exact h.await hst
    · exact h.takeNow hst

theorem short {letters : List Char} (h : st.Recorded) (hst : st.short letters = .ok st') : st'.Recorded := by
  induction letters generalizing st with
  | nil =>
    cases hst
    exact h
  | cons c rest ih =>
    rw [Reading.short] at hst
    split at hst
    · cases hst
    · split at hst
      · split at hst
        · exact h.await hst
        · exact h.takeNow hst
        · exact h.takeNow hst
      · obtain ⟨st₁, hst₁, hst⟩ := bind_eq_ok hst
        exact ih (h.takeNow hst₁) hst

theorem plain {arg : String} (h : st.Recorded) (hst : st.plain arg = .ok st') : st'.Recorded := by
  rw [Reading.plain] at hst
  split at hst
  · cases hst
  · obtain ⟨st₁, hst₁, hst⟩ := bind_eq_ok hst
    have h := h.settle hst₁
    cases hst
    exact h

theorem argument {arg : String} (h : st.Recorded) (hst : st.argument arg = .ok st') : st'.Recorded := by
  rw [Reading.argument] at hst
  split at hst
  · split at hst <;> exact h.long hst
  · exact h.short hst
  · cases hst
    exact h
  · exact h.plain hst

theorem arguments {ended : Bool} {args : List String} (h : st.Recorded)
    (hst : st.arguments ended args = .ok st') : st'.Recorded := by
  induction args generalizing st ended with
  | nil => exact h.settle hst
  | cons arg rest ih =>
    rw [Reading.arguments] at hst
    split at hst
    · obtain ⟨st₁, hst₁, hst⟩ := bind_eq_ok hst
      exact ih (h.plain hst₁) hst
    split at hst
    · exact ih h hst
    · obtain ⟨st₁, hst₁, hst⟩ := bind_eq_ok hst
      exact ih (h.argument hst₁) hst

end Recorded

theorem not_conflicts_of_conflict? (h : st.conflict? = none) (hp : p ∈ st.given) (hq : q ∈ st.given) :
    p.conflicts q = false := by
  have hp := List.findSome?_eq_none_iff.1 h p hp
  split at hp
  · rename_i hnil
    simpa using List.filter_eq_nil_iff.1 hnil q hq
  · cases hp

end Reading

variable {args : List String} {request : Request}

/-- A request does not ask for things that conflict. -/
theorem conflicts_of_parse (h : parse args = .ok request) {p q : Parameter} (hp : request.asks p = true)
    (hq : request.asks q = true) : p.conflicts q = false := by
  obtain ⟨st, hst, h⟩ := Reading.bind_eq_ok h
  have hstart : ({} : Reading).Recorded := fun p hp => by cases p <;> cases hp
  have hrecorded := hstart.arguments hst
  split at h
  · cases h
  rename_i hnone
  split at h
  · cases h
  · cases h
    exact Reading.not_conflicts_of_conflict? hnone (hrecorded p hp) (hrecorded q hq)

end GrammarFormat.Command
