import GrammarFormat.Layout.Piece
import Mathlib.Order.Lattice

/-!
# What gaps ask for

A gap carries out what the rules demand together (`demandAfter`), and never asks for more than two line
breaks (`newlines_decisions_le`).
-/

namespace GrammarFormat.Layout

variable {s : TokenStream} {m : Memory}

/-- Whether the next token closes a group that is laid out over several lines. -/
def closesNext (s : TokenStream) (i : Nat) (c : Scope) (m : Memory) : Bool :=
  (closersAfter s i c m).head? == some (i + 1)

/-- The demands of all rules on the gap after the token at `i`. -/
def demandAfter (s : TokenStream) (i : Nat) (c : Scope) (m : Memory) : Demand :=
  if c.inLookahead then frameDemand (s.kind i) c m
  else
    frameDemand (s.kind i) c m ++ generalDemand (s.kind i) (s.kind (i + 1)) c ++
      quantifierDemand i (s.kind i) (s.kind (i + 1)) m ++ Demand.when c.inGrammar (grammarDemand s i c) ++
      Demand.when (closesNext s i c m) ⟨1, -1⟩

theorem newlines_gapAfter (s : TokenStream) (i : Nat) (c : Scope) (m : Memory) :
    (gapAfter s i c m).1.newlines = (demandAfter s i c m).breaks := by
  unfold gapAfter demandAfter
  cases c.inLookahead <;> rfl

theorem indent_gapAfter (s : TokenStream) (i : Nat) (c : Scope) (m : Memory) :
    (gapAfter s i c m).1.indent = (demandAfter s i c m).indent := by
  unfold gapAfter demandAfter
  cases c.inLookahead <;> rfl

theorem deferred_gapAfter (s : TokenStream) (i : Nat) (c : Scope) (m : Memory) :
    (gapAfter s i c m).2.deferred? = deferredAfter (s.kind i) c m := by
  unfold gapAfter
  cases c.inLookahead <;> rfl

theorem closers_gapAfter (s : TokenStream) (i : Nat) (c : Scope) (m : Memory) :
    (gapAfter s i c m).2.closers = if c.inLookahead then m.closers
      else if closesNext s i c m then (closersAfter s i c m).tail else closersAfter s i c m := by
  unfold gapAfter
  cases c.inLookahead <;> rfl

theorem closed_gapAfter (s : TokenStream) (i : Nat) {c : Scope} (m : Memory) (hc : c.inLookahead = false) :
    (gapAfter s i c m).2.closed? = if closesNext s i c m then some (i + 1) else m.closed?.filter (· != i) := by
  unfold gapAfter
  rw [hc]
  rfl

theorem postponed_gapAfter (s : TokenStream) (i : Nat) {c : Scope} (m : Memory) (hc : c.inLookahead = false) :
    (gapAfter s i c m).2.postponed = (closesUnit i (s.kind i) m && (s.kind (i + 1)).isQuantifier) := by
  unfold gapAfter
  rw [hc]
  rfl

/-! ### Line breaks -/

namespace Demand

theorem breaks_append_le {a b : Demand} {n : Nat} (ha : a.breaks ≤ n) (hb : b.breaks ≤ n) :
    (a ++ b).breaks ≤ n :=
  max_le ha hb

theorem breaks_when_le {demand : Demand} {n : Nat} (h : demand.breaks ≤ n) (condition : Bool) :
    (Demand.when condition demand).breaks ≤ n := by
  cases condition
  · exact Nat.zero_le n
  · exact h

theorem le_breaks_left {a : Demand} {n : Nat} (h : n ≤ a.breaks) (b : Demand) : n ≤ (a ++ b).breaks :=
  Nat.le_trans h (Nat.le_max_left ..)

theorem le_breaks_right {b : Demand} {n : Nat} (h : n ≤ b.breaks) (a : Demand) : n ≤ (a ++ b).breaks :=
  Nat.le_trans h (Nat.le_max_right ..)

end Demand

open Demand (breaks_append_le breaks_when_le)

theorem breaks_generalDemand_le (current next : TokenKind) (c : Scope) :
    (generalDemand current next c).breaks ≤ 2 := by
  have hbrace : (if c.braces == 0 && next != .openBrace then 2 else 1) ≤ 2 := by split <;> decide
  repeat' apply breaks_append_le
  all_goals exact breaks_when_le (by first | exact hbrace | decide) _

theorem breaks_quantifierDemand_le (i : Nat) (current next : TokenKind) (m : Memory) :
    (quantifierDemand i current next m).breaks ≤ 2 :=
  breaks_append_le (breaks_when_le (by decide) _) (breaks_when_le (by decide) _)

theorem breaks_grammarDemand_le (s : TokenStream) (i : Nat) (c : Scope) :
    (grammarDemand s i c).breaks ≤ 2 := by
  repeat' apply breaks_append_le
  all_goals exact breaks_when_le (by decide) _

/-- The line breaks that wait for a parenthesis are two at most. -/
def Memory.Bounded (m : Memory) : Prop :=
  ∀ deferred ∈ m.deferred?, deferred.breaks ≤ 2

namespace Memory.Bounded

theorem frameDemand (h : m.Bounded) (kind : TokenKind) (c : Scope) : (frameDemand kind c m).breaks ≤ 2 := by
  unfold Layout.frameDemand
  split
  · rename_i deferred hdeferred
    exact breaks_when_le (h deferred hdeferred) _
  · exact Nat.zero_le 2

theorem deferredAfter (h : m.Bounded) (kind : TokenKind) (c : Scope) :
    ∀ deferred ∈ deferredAfter kind c m, deferred.breaks ≤ 2 := by
  unfold Layout.deferredAfter
  intro deferred hdeferred
  split at hdeferred
  · cases hdeferred
    exact Nat.le_succ 1
  · cases hdeferred
    exact Nat.le_refl 2
  · exact h deferred (Option.mem_filter_iff.1 hdeferred).1
  · exact h deferred hdeferred

theorem gapAfter (h : m.Bounded) (s : TokenStream) (i : Nat) (c : Scope) :
    (gapAfter s i c m).1.newlines ≤ 2 ∧ (gapAfter s i c m).2.Bounded := by
  refine ⟨?_, ?_⟩
  · rw [newlines_gapAfter, demandAfter]
    split
    · exact h.frameDemand _ _
    · refine breaks_append_le (breaks_append_le (breaks_append_le (breaks_append_le ?_ ?_) ?_) ?_) ?_
      · exact h.frameDemand _ _
      · exact breaks_generalDemand_le _ _ _
      · exact breaks_quantifierDemand_le _ _ _ _
      · exact breaks_when_le (breaks_grammarDemand_le s i c) _
      · exact breaks_when_le (Nat.le_succ 1) _
  · rw [Bounded, deferred_gapAfter]
    exact h.deferredAfter _ _

end Memory.Bounded

theorem newlines_decisionsFrom_le (left i : Nat) (c : Scope) (h : m.Bounded) :
    ∀ decision ∈ decisionsFrom s left i c m, decision.gap.newlines ≤ 2 := by
  induction left generalizing i c m with
  | zero => exact List.forall_mem_nil _
  | succ left ih =>
    rw [decisionsFrom]
    split
    · exact List.forall_mem_nil _
    · obtain ⟨hgap, hmemory⟩ := h.gapAfter s i (c.advance s i)
      exact List.forall_mem_cons.2 ⟨hgap, ih (i + 1) _ hmemory⟩

theorem newlines_decisions_le (s : TokenStream) :
    ∀ gap ∈ (decisions s).map Decision.gap, gap.newlines ≤ 2 := by
  intro gap hgap
  obtain ⟨decision, hdecision, rfl⟩ := List.mem_map.1 hgap
  exact newlines_decisionsFrom_le s.size 0 {} (fun _ h => by cases h) decision hdecision

end GrammarFormat.Layout
