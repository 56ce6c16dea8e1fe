import GrammarFormat.Proofs.Parts
import GrammarFormat.Proofs.Partners
import GrammarFormat.Proofs.Passes
import Mathlib.Data.Nat.Find

/-!
# What the decisions look at

The gap rules see the kinds of tokens and, where two tokens are to be joined, their images. They look ahead as far as
it takes, but never over an end mark: a scan for a partner stops there, and all others stop at the partner. So streams
that agree up to their first end mark have the same decisions (`SameFront.decisions`), wherever their tokens stand,
whatever trivia they carry, and whatever comes behind the end mark.
-/

namespace GrammarFormat

namespace TokenStream

variable {s s' : TokenStream} {b : Brackets} {e i c : Nat}

/-- Up to the token at `e`, which is the first end mark, the streams have tokens of the same kinds and images. -/
structure SameFront (e : Nat) (s s' : TokenStream) : Prop where
  kind : ∀ i ≤ e, s.kind i = s'.kind i
  image : ∀ i ≤ e, (s.get? i).map Token.image = (s'.get? i).map Token.image
  ends : s.kind e = .endOfFile
  first : ∀ i < e, s.kind i ≠ .endOfFile

theorem filter_congr {o : Option Nat} {p q : Nat → Bool} (h : ∀ i ∈ o, p i = q i) : o.filter p = o.filter q := by
  cases o with
  | none => rfl
  | some i => rw [Option.filter_some, Option.filter_some, h i rfl]

namespace SameFront

open Layout

variable (h : SameFront e s s')

include h

theorem lt_size : e < s.size :=
  lt_size_of_first h.first

theorem lt_size' : e < s'.size := by
  refine lt_size_of_first fun i hi => ?_
  rw [← h.kind i (Nat.le_of_lt hi)]
  exact h.first i hi

/-! ### Looking around -/

theorem kindBefore (hi : i ≤ e) : s.kindBefore i = s'.kindBefore i := by
  cases i with
  | zero => rfl
  | succ i => exact h.kind i (Nat.le_of_succ_le hi)

theorem partnerFrom (hb : b.opens .endOfFile = false ∧ b.closes .endOfFile = false ∧ b.stops .endOfFile = true)
    (left left' depth : Nat) (hi : i ≤ e) (hleft : e < i + left) (hleft' : e < i + left') :
    s.partnerFrom b left depth i = s'.partnerFrom b left' depth i := by
  induction left generalizing left' depth i with
  | zero => omega
  | succ left ih =>
    obtain ⟨left', rfl⟩ : ∃ n, left' = n + 1 := ⟨left' - 1, by omega⟩
    have hkind := h.kind i hi
    rcases Nat.eq_or_lt_of_le hi with rfl | hlt
    · have hend := h.ends
      rw [partnerFrom_stops _ _ (by rw [hend, hb.1]) (by rw [hend, hb.2.1]) (by rw [hend, hb.2.2])]
      rw [hkind] at hend
      rw [partnerFrom_stops _ _ (by rw [hend, hb.1]) (by rw [hend, hb.2.1]) (by rw [hend, hb.2.2])]
    · have hnext : ∀ depth, s.partnerFrom b left depth (i + 1) = s'.partnerFrom b left' depth (i + 1) :=
        fun depth => ih left' depth hlt (by omega) (by omega)
      unfold TokenStream.partnerFrom
      simp only [hkind, hnext]

theorem roundPartner? (hi : i ≤ e) : s.roundPartner? i = s'.roundPartner? i := by
  have hsize := h.lt_size
  have hsize' := h.lt_size'
  exact h.partnerFrom (by decide) _ _ 0 hi (by omega) (by omega)

theorem anglePartner? (hi : i ≤ e) : s.anglePartner? i = s'.anglePartner? i := by
  have hsize := h.lt_size
  have hsize' := h.lt_size'
  rw [TokenStream.anglePartner?, TokenStream.anglePartner?, h.kind i hi]
  exact h.partnerFrom (by decide) _ _ _ hi (by omega) (by omega)

theorem colonFrom (left angle round : Nat) (hi : i + left ≤ e) :
    s.colonFrom left i angle round = s'.colonFrom left i angle round := by
  induction left generalizing i angle round with
  | zero => rfl
  | succ left ih =>
    have hnext := fun angle round => ih (i := i + 1) angle round (by omega)
    simp only [TokenStream.colonFrom, h.kind i (by omega), hnext]

theorem isDeclaration {first last : Nat} (hfirst : first ≤ last) (hlast : last < e) :
    s.isDeclaration first last = s'.isDeclaration first last :=
  h.colonFrom _ 0 0 (by omega)

theorem hasChoiceOrGroup {first last : Nat} (hlast : last < e) :
    s.hasChoiceOrGroup first last = s'.hasChoiceOrGroup first last := by
  rw [TokenStream.hasChoiceOrGroup, TokenStream.hasChoiceOrGroup, Bool.eq_iff_iff, List.any_eq_true, List.any_eq_true]
  refine exists_congr fun i => and_congr_right fun hi => ?_
  rw [List.mem_range'_1] at hi
  rw [h.kind i (by omega)]

theorem unitFrom (left braces : Nat) (hi : i + left ≤ e) :
    s.unitFrom left i braces = s'.unitFrom left i braces := by
  induction left generalizing i braces with
  | zero => rfl
  | succ left ih =>
    have hnext := fun braces => ih (i := i + 1) braces (by omega)
    simp only [TokenStream.unitFrom, h.kind i (by omega), h.kindBefore (i := i) (by omega), hnext]

theorem multiChoice? (hi : i ≤ e) : s.multiChoice? i = s'.multiChoice? i := by
  rw [TokenStream.multiChoice?, TokenStream.multiChoice?, ← h.roundPartner? hi]
  refine filter_congr fun last hlast => ?_
  obtain ⟨hle, hlt⟩ := partnerFrom_bounds (by decide) h.ends hi hlast
  exact h.unitFrom _ 0 (by omega)

/-! ### Scopes and gaps -/

theorem anglesAfter (hi : i ≤ e) (c : Scope) : Scope.anglesAfter s i c = Scope.anglesAfter s' i c := by
  have hgroup : ∀ last ∈ s.anglePartner? i, s.isDeclaration i last = s'.isDeclaration i last := by
    intro last hlast
    obtain ⟨hle, hlt⟩ := partnerFrom_bounds (by decide) h.ends hi hlast
    exact h.isDeclaration hle hlt
  rw [Scope.anglesAfter, Scope.anglesAfter, ← h.kind i hi, ← h.anglePartner? hi]
  cases hlast : s.anglePartner? i with
  | none => rfl
  | some last => simp only [hgroup last hlast]

theorem advance (hi : i < e) (c : Scope) : c.advance s i = c.advance s' i := by
  have hi' := Nat.le_of_lt hi
  rw [Scope.advance, Scope.advance, h.anglesAfter hi', h.kind i hi', h.kind (i + 1) hi, h.kindBefore hi']

theorem spaced (hi : i < e) (c : Scope) : spaced s i c = spaced s' i c := by
  have himage := h.image i (Nat.le_of_lt hi)
  have hnext := h.image (i + 1) hi
  have hjoined : joined s i c = joined s' i c := by
    rw [joined, joined, h.kind i (Nat.le_of_lt hi), h.kind (i + 1) hi]
  rw [Layout.spaced, Layout.spaced, hjoined]
  cases hs : s.get? i <;> cases hs' : s'.get? i <;>
    cases ht : s.get? (i + 1) <;> cases ht' : s'.get? (i + 1) <;> simp_all

theorem declarationEnd? (hi : i ≤ e) (c : Scope) : declarationEnd? s i c = declarationEnd? s' i c := by
  rw [Layout.declarationEnd?, Layout.declarationEnd?, ← h.kind i hi, ← h.anglePartner? hi]
  split_ifs
  · refine filter_congr fun last hlast => ?_
    exact h.hasChoiceOrGroup (partnerFrom_bounds (by decide) h.ends hi hlast).2
  · rfl

theorem unitEnd? (hi : i ≤ e) : unitEnd? s i = unitEnd? s' i := by
  rw [Layout.unitEnd?, Layout.unitEnd?, h.kind i hi, h.kindBefore hi, h.multiChoice? hi]

theorem gapAfter (hi : i < e) (c : Scope) (m : Memory) : gapAfter s i c m = gapAfter s' i c m := by
  have hi' := Nat.le_of_lt hi
  have hdemand : grammarDemand s i c = grammarDemand s' i c := by
    rw [grammarDemand, grammarDemand, h.kind i hi', h.kind (i + 1) hi, h.declarationEnd? hi', h.multiChoice? hi,
      h.unitEnd? hi']
  have hclosers : ∀ m, closersAfter s i c m = closersAfter s' i c m := by
    intro m
    rw [closersAfter, closersAfter, h.declarationEnd? hi', h.unitEnd? hi']
  simp only [Layout.gapAfter, h.kind i hi', h.kind (i + 1) hi, hdemand, hclosers, h.spaced hi]

theorem decisionsFrom (left left' : Nat) (c : Scope) (m : Memory) (hi : i ≤ e) (hleft : e < i + left)
    (hleft' : e < i + left') : decisionsFrom s left i c m = decisionsFrom s' left' i c m := by
  induction left generalizing left' i c m with
  | zero => omega
  | succ left ih =>
    obtain ⟨left', rfl⟩ : ∃ n, left' = n + 1 := ⟨left' - 1, by omega⟩
    rw [Layout.decisionsFrom, Layout.decisionsFrom, ← h.kind i hi]
    split_ifs with hend
    · rfl
    · have hlt : i < e := Nat.lt_of_le_of_ne hi fun hie => hend (hie ▸ h.ends)
      simp only [h.advance hlt, h.gapAfter hlt]
      rw [ih left' _ _ hlt (by omega) (by omega)]

/-- The decisions depend on the kinds and images of the tokens up to the first end mark only. -/
theorem decisions : decisions s = decisions s' := by
  have hsize := h.lt_size
  have hsize' := h.lt_size'
  exact h.decisionsFrom _ _ {} {} (Nat.zero_le e) (by omega) (by omega)

end SameFront

end TokenStream

/-! ### Streams with the same tokens -/

structure TokenStream.SameTokens (s s' : TokenStream) : Prop where
  size : s.size = s'.size
  kind : s.kind = s'.kind
  image : ∀ i, (s.get? i).map Token.image = (s'.get? i).map Token.image

theorem TokenStream.SameTokens.decisions {s s' : TokenStream} (h : SameTokens s s') :
    Layout.decisions s = Layout.decisions s' := by
  have hend : ∃ e, s.kind e = .endOfFile := ⟨s.size, Layout.kind_size s⟩
  have hfront : SameFront (Nat.find hend) s s' :=
    ⟨fun i _ => congrFun h.kind i, fun i _ => h.image i, Nat.find_spec hend, fun i hi => Nat.find_min hend hi⟩
  exact hfront.decisions

theorem TokenStream.kind_eq (s : TokenStream) (i : Nat) :
    s.kind i = ((s.get? i).map Token.kind).getD .endOfFile := by
  rw [TokenStream.kind]
  cases s.get? i <;> rfl

/-- Streams with the same contents have the same tokens. -/
theorem sameTokens_of_contents {s s' : TokenStream} (h : s.contents = s'.contents) : s.SameTokens s' := by
  have hget : ∀ (s : TokenStream) i,
      s.contents[i]? = (s.get? i).map fun t => t.outline.withoutBreaks := fun s i => by
    simp [TokenStream.contents, TokenStream.outlines, TokenStream.get?, Function.comp_def]
  have hi : ∀ i, (s.get? i).map (fun t => t.outline.withoutBreaks) =
      (s'.get? i).map fun t => t.outline.withoutBreaks := fun i => by
    rw [← hget, ← hget, h]
  have hmap : ∀ {α : Type} (f : Outline → α) i, (s.get? i).map (fun t => f t.outline.withoutBreaks) =
      (s'.get? i).map fun t => f t.outline.withoutBreaks := fun f i => by
    have := congrArg (Option.map f) (hi i)
    rwa [Option.map_map, Option.map_map] at this
  refine ⟨?_, ?_, hmap Outline.image⟩
  · simpa [TokenStream.contents, TokenStream.outlines, TokenStream.size] using congrArg List.length h
  · funext i
    rw [s.kind_eq, s'.kind_eq]
    exact congrArg (Option.getD · _) (hmap Outline.kind i)

end GrammarFormat
