import GrammarFormat.Proofs.LexemeTexts
import GrammarFormat.Text.LineTable
import Mathlib.Data.List.DropRight
import Mathlib.Data.String.Basic
import Mathlib.Tactic.Common

/-!
# Positions by counting and by table

A position can be followed through a text (`Position.advance`), counted in the text behind which it is
(`Position.behind`), or looked up in a table of line starts. All three agree (`advance_start`, `position?_eq`) at
every place but the middle of a `\r\n`.
-/

namespace GrammarFormat

open Lexeme (isTerminator terminators)

/-! ### Following a position through a text -/

namespace Position

def nextLine (pos : Position) : Position :=
  { line := pos.line + 1, column := 1 }

/-- Where one is after reading `text` from `pos`. -/
def advance (pos : Position) : List Char → Position
  | [] => pos
  | '\r' :: '\n' :: rest => pos.nextLine.advance rest
  | '\r' :: rest => pos.nextLine.advance rest
  | '\n' :: rest => pos.nextLine.advance rest
  | _ :: rest => { pos with column := pos.column + 1 }.advance rest

/-- Where the last character of a text that starts at `pos` stands. -/
def last (pos : Position) (text : List Char) : Position :=
  pos.advance text.dropLast

end Position

/-- How many lines end in a text. -/
def Text.lineEnds : List Char → Nat
  | [] => 0
  | '\r' :: '\n' :: rest => lineEnds rest + 1
  | '\r' :: rest => lineEnds rest + 1
  | '\n' :: rest => lineEnds rest + 1
  | _ :: rest => lineEnds rest

/-- What stands on the last line of a text. -/
def Text.lastLine (text : List Char) : List Char :=
  text.rtakeWhile fun c => !isTerminator c

/-- The position behind a text. -/
def Position.behind (text : List Char) : Position where
  line := 1 + Text.lineEnds text
  column := 1 + (Text.lastLine text).length

open Text (lineEnds lastLine byteSize)

variable {x y : List Char} {c : Char}

theorem Position.line_nextLine (pos : Position) : pos.nextLine.line = pos.line + 1 := rfl

theorem Position.line_advance (pos : Position) (x : List Char) :
    (pos.advance x).line = pos.line + lineEnds x := by
  fun_induction lineEnds x generalizing pos with
  | case1 => rfl
  | case2 rest ih => rw [advance, ih, line_nextLine]; omega
  | case3 rest hne ih => rw [advance, ih, line_nextLine] <;> first | assumption | omega
  | case4 rest ih => rw [advance, ih, line_nextLine]; omega
  | case5 c rest _ hr hn ih => rw [advance, ih] <;> assumption

/-- A text whose last line end does not go on in the next one. -/
theorem head_ne_of_cons {a : Char} {rest : List Char}
    (h : (a :: rest).getLast? = some '\r' → y.head? ≠ some '\n') :
    rest.getLast? = some '\r' → y.head? ≠ some '\n' :=
  fun hr => h (by simp [List.getLast?_cons, hr])

theorem ne_lineFeed_of_append {rest z : List Char} (hne : ∀ z, rest ≠ '\n' :: z)
    (h : ('\r' :: rest).getLast? = some '\r' → y.head? ≠ some '\n') : rest ++ y ≠ '\n' :: z := by
  intro hz
  cases rest with
  | nil =>
    obtain rfl : y = '\n' :: z := hz
    exact h rfl rfl
  | cons c rest =>
    cases hz
    exact hne rest rfl

theorem Position.advance_append (pos : Position) (h : x.getLast? = some '\r' → y.head? ≠ some '\n') :
    pos.advance (x ++ y) = (pos.advance x).advance y := by
  fun_induction advance pos x with
  | case1 => rfl
  | case2 pos rest ih => exact ih (head_ne_of_cons (head_ne_of_cons h))
  | case3 pos rest hne ih =>
    rw [List.cons_append, advance, ih (head_ne_of_cons h)]
    exact fun z hz => ne_lineFeed_of_append hne h hz
  | case4 pos rest ih => exact ih (head_ne_of_cons h)
  | case5 pos c rest _ hr hn ih =>
    rw [List.cons_append, advance, ih (head_ne_of_cons h)]
    · exact fun _ hc _ => hr hc
    · exact hr
    · exact hn

/-- Line ends add up, unless one of them stands half in each text. -/
theorem Text.lineEnds_append (h : x.getLast? = some '\r' → y.head? ≠ some '\n') :
    lineEnds (x ++ y) = lineEnds x + lineEnds y := by
  have hline := congrArg Position.line (Position.start.advance_append h)
  simp only [Position.line_advance] at hline
  omega

theorem Text.lineEnds_eq_zero (h : ∀ c ∈ x, isTerminator c = false) : lineEnds x = 0 := by
  fun_induction lineEnds x with
  | case1 => rfl
  | case2 | case3 | case4 => cases h _ (List.mem_cons_self ..)
  | case5 c rest _ _ _ ih => exact ih fun d hd => h d (List.mem_cons_of_mem _ hd)

/-! ### Lines and columns -/

theorem Position.advance_of_line (pos : Position) (h : ∀ c ∈ x, isTerminator c = false) :
    pos.advance x = { pos with column := pos.column + x.length } := by
  fun_induction advance pos x with
  | case1 => rfl
  | case2 | case3 | case4 => cases h _ (List.mem_cons_self ..)
  | case5 pos c rest _ _ _ ih =>
    rw [ih fun d hd => h d (List.mem_cons_of_mem _ hd), List.length_cons, Nat.add_assoc, Nat.add_comm 1]

/-- A text that ends with the end of a line. -/
theorem Text.exists_terminator (hc : x.getLast? = some c) (ht : isTerminator c = true) :
    ∃ front t, x = front ++ t ∧ t ∈ terminators ∧ (front.getLast? = some '\r' → t.head? ≠ some '\n') := by
  obtain ⟨front, rfl⟩ := List.getLast?_eq_some_iff.1 hc
  simp only [isTerminator, Bool.or_eq_true, beq_iff_eq] at ht
  rcases ht with rfl | rfl
  · exact ⟨front, ['\r'], rfl, by decide, by simp⟩
  · by_cases hr : front.getLast? = some '\r'
    · obtain ⟨front, rfl⟩ := List.getLast?_eq_some_iff.1 hr
      exact ⟨front, ['\r', '\n'], by simp, by decide, by simp⟩
    · exact ⟨front, ['\n'], rfl, by decide, fun h => absurd h hr⟩

/-- Behind the end of a line a new one starts. -/
theorem Position.column_advance (pos : Position) (hc : x.getLast? = some c) (ht : isTerminator c = true) :
    (pos.advance x).column = 1 := by
  obtain ⟨front, t, rfl, hmem, hwhole⟩ := Text.exists_terminator hc ht
  rw [pos.advance_append hwhole]
  simp only [terminators, List.mem_cons, List.not_mem_nil, or_false] at hmem
  rcases hmem with rfl | rfl | rfl <;> rfl

/-- A text is its last line behind lines that are ended. -/
theorem Text.exists_lastLine (x : List Char) : ∃ front, x = front ++ lastLine x ∧
    (∀ c ∈ lastLine x, isTerminator c = false) ∧ ∀ c ∈ front.getLast?, isTerminator c = true := by
  refine ⟨x.rdropWhile fun c => !isTerminator c, List.rdropWhile_append_rtakeWhile.symm, ?_, ?_⟩
  · intro c hc
    simpa using List.mem_rtakeWhile_imp hc
  · intro c hc
    have hne : x.rdropWhile (fun c => !isTerminator c) ≠ [] := by
      intro hnil
      rw [hnil] at hc
      cases hc
    have hlast := List.rdropWhile_last_not (fun c => !isTerminator c) x hne
    rw [List.getLast?_eq_some_getLast hne] at hc
    cases hc
    simpa using hlast

/-- No line end goes on in a text without one. -/
theorem head_ne_of_line (h : ∀ c ∈ y, isTerminator c = false) : y.head? ≠ some '\n' := by
  intro hhead
  cases h _ (List.mem_of_mem_head? hhead)

theorem Position.advance_start (x : List Char) : start.advance x = behind x := by
  obtain ⟨front, hx, hline, hends⟩ := Text.exists_lastLine x
  have hwhole : front.getLast? = some '\r' → (lastLine x).head? ≠ some '\n' := fun _ => head_ne_of_line hline
  have hcolumn : (start.advance front).column = 1 := by
    cases hlast : front.getLast? with
    | none =>
      rw [List.getLast?_eq_none_iff.1 hlast]
      rfl
    | some c => exact start.column_advance hlast (hends c hlast)
  have hlines : lineEnds x = lineEnds front := by
    rw [hx, Text.lineEnds_append hwhole, Text.lineEnds_eq_zero hline, Nat.add_zero]
  have hadvance : start.advance x = (start.advance front).advance (lastLine x) := by
    rw [← start.advance_append hwhole, ← hx]
  rw [hadvance, advance_of_line _ hline, hcolumn, line_advance, behind, hlines]
  rfl

/-! ### The starts of lines -/

/-- The offsets behind the line ends of a text that starts at `offset`. -/
def Text.lineStarts (offset : Nat) : List Char → List Nat
  | [] => []
  | '\r' :: '\n' :: rest => (offset + 2) :: lineStarts (offset + 2) rest
  | '\r' :: rest => (offset + 1) :: lineStarts (offset + 1) rest
  | '\n' :: rest => (offset + 1) :: lineStarts (offset + 1) rest
  | c :: rest => lineStarts (offset + c.utf8Size) rest

open Text (lineStarts)

theorem Text.byteSize_append (x y : List Char) : byteSize (x ++ y) = byteSize x + byteSize y := by
  induction x with
  | nil => exact (Nat.zero_add _).symm
  | cons c x ih => rw [List.cons_append, byteSize, byteSize, ih, Nat.add_assoc]

namespace Text

theorem length_lineStarts (offset : Nat) (x : List Char) : (lineStarts offset x).length = lineEnds x := by
  fun_induction lineStarts offset x with
  | case1 => rfl
  | case2 _ rest ih => rw [lineEnds, List.length_cons, ih]
  | case3 _ rest hne ih => rw [lineEnds, List.length_cons, ih]; exact hne
  | case4 _ rest ih => rw [lineEnds, List.length_cons, ih]
  | case5 _ c rest _ hr hn ih => rw [lineEnds, ih] <;> assumption

theorem lineStarts_append (offset : Nat) (h : x.getLast? = some '\r' → y.head? ≠ some '\n') :
    lineStarts offset (x ++ y) = lineStarts offset x ++ lineStarts (offset + byteSize x) y := by
  have hr : Char.utf8Size '\r' = 1 := rfl
  have hn : Char.utf8Size '\n' = 1 := rfl
  fun_induction lineStarts offset x with
  | case1 => rfl
  | case2 offset rest ih =>
    have hsize : offset + byteSize ('\r' :: '\n' :: rest) = offset + 2 + byteSize rest := by
      rw [byteSize, byteSize, hr, hn]
      omega
    rw [List.cons_append, List.cons_append, lineStarts, ih (head_ne_of_cons (head_ne_of_cons h)), hsize,
      List.cons_append]
  | case3 offset rest hne ih =>
    rw [List.cons_append, lineStarts, ih (head_ne_of_cons h), byteSize]
    · simp only [hr, List.cons_append, Nat.add_assoc]
    · exact fun z hz => ne_lineFeed_of_append hne h hz
  | case4 offset rest ih =>
    rw [List.cons_append, lineStarts, ih (head_ne_of_cons h), byteSize]
    simp only [hn, List.cons_append, Nat.add_assoc]
  | case5 offset c rest _ hr hn ih =>
    rw [List.cons_append, lineStarts, ih (head_ne_of_cons h), byteSize, Nat.add_assoc]
    · exact fun _ hc _ => hr hc
    · exact hr
    · exact hn

theorem lineStarts_of_line (offset : Nat) (h : ∀ c ∈ x, isTerminator c = false) : lineStarts offset x = [] := by
  rw [← List.length_eq_zero_iff, length_lineStarts, lineEnds_eq_zero h]

theorem lt_of_mem_lineStarts {offset a : Nat} (h : a ∈ lineStarts offset x) : offset < a := by
  fun_induction lineStarts offset x with
  | case1 => cases h
  | case2 offset rest ih =>
    rcases List.mem_cons.1 h with rfl | h
    · omega
    · have := ih h
      omega
  | case3 offset rest _ ih =>
    rcases List.mem_cons.1 h with rfl | h
    · omega
    · have := ih h
      omega
  | case4 offset rest ih =>
    rcases List.mem_cons.1 h with rfl | h
    · omega
    · have := ih h
      omega
  | case5 offset c rest _ _ _ ih =>
    have := ih h
    omega

theorem pairwise_lineStarts (offset : Nat) (x : List Char) : (lineStarts offset x).Pairwise (· < ·) := by
  fun_induction lineStarts offset x with
  | case1 => exact .nil
  | case2 _ _ ih => exact List.pairwise_cons.2 ⟨fun a ha => lt_of_mem_lineStarts ha, ih⟩
  | case3 _ _ _ ih => exact List.pairwise_cons.2 ⟨fun a ha => lt_of_mem_lineStarts ha, ih⟩
  | case4 _ _ ih => exact List.pairwise_cons.2 ⟨fun a ha => lt_of_mem_lineStarts ha, ih⟩
  | case5 _ _ _ _ _ _ ih => exact ih

/-- The last line of a text starts where the ended ones end. -/
theorem exists_lineStarts (x : List Char) : ∃ before front, x = before ++ lastLine x ∧
    0 :: lineStarts 0 x = front ++ [byteSize before] ∧ front.length = lineEnds x := by
  obtain ⟨before, hx, hline, hends⟩ := exists_lastLine x
  have hwhole : before.getLast? = some '\r' → (lastLine x).head? ≠ some '\n' := fun _ => head_ne_of_line hline
  have hstarts : lineStarts 0 x = lineStarts 0 before := by
    rw [hx, lineStarts_append 0 hwhole, lineStarts_of_line _ hline, List.append_nil]
  have hlength := length_lineStarts 0 x
  cases hlast : before.getLast? with
  | none =>
    obtain rfl := List.getLast?_eq_none_iff.1 hlast
    rw [hstarts] at hlength ⊢
    exact ⟨[], [], hx, rfl, hlength⟩
  | some c =>
    obtain ⟨front, t, rfl, ht, hwhole'⟩ := exists_terminator hlast (hends c hlast)
    have hone : ∀ offset, lineStarts offset t = [offset + byteSize t] := by
      simp only [terminators, List.mem_cons, List.not_mem_nil, or_false] at ht
      rcases ht with rfl | rfl | rfl <;> exact fun _ => rfl
    rw [lineStarts_append 0 hwhole', hone] at hstarts
    rw [hstarts] at hlength ⊢
    refine ⟨front ++ t, 0 :: lineStarts 0 front, hx, ?_, ?_⟩
    · rw [byteSize_append, Nat.zero_add, List.cons_append]
    · simpa using hlength

end Text

/-! ### Bytes -/

/-- A character is one byte, or several bytes none of which is a character by itself. -/
theorem utf8EncodeChar_cases (c : Char) :
    c.toNat < 128 ∧ String.utf8EncodeChar c = [UInt8.ofNat c.toNat] ∨
      ∀ b ∈ String.utf8EncodeChar c, 128 ≤ b.toNat := by
  rw [String.utf8EncodeChar]
  split_ifs with hone
  · exact .inl ⟨Nat.lt_succ_of_le hone, rfl⟩
  all_goals
    refine .inr fun b hb => ?_
    simp only [List.mem_cons, List.not_mem_nil, or_false] at hb
    rcases hb with rfl | rfl | rfl | rfl <;> simp only [UInt8.toNat_ofNat'] <;> omega

/-- The bytes that end lines are those of the characters that do. -/
theorem eq_of_mem_utf8EncodeChar {b : UInt8} {d : Char} (hd : d.toNat < 128) (hb : b ∈ String.utf8EncodeChar c)
    (h : b.toNat = d.toNat) : c = d := by
  rcases utf8EncodeChar_cases c with ⟨hc, hone⟩ | hall
  · rw [hone, List.mem_singleton] at hb
    subst hb
    rw [UInt8.toNat_ofNat', Nat.mod_eq_of_lt (by omega)] at h
    exact Char.toNat_inj.1 h
  · have := hall b hb
    omega

namespace LineTable

theorem startsFrom_append_of_ne (offset : Nat) {bytes : List UInt8} (h : ∀ b ∈ bytes, b ≠ 13 ∧ b ≠ 10)
    (rest : List UInt8) : startsFrom offset (bytes ++ rest) = startsFrom (offset + bytes.length) rest := by
  induction bytes generalizing offset with
  | nil => rfl
  | cons b bytes ih =>
    obtain ⟨⟨hr, hn⟩, hbytes⟩ := List.forall_mem_cons.1 h
    rw [List.cons_append, startsFrom, ih _ hbytes, List.length_cons, Nat.add_assoc, Nat.add_comm 1]
    · exact fun _ hb _ => hr hb
    · exact hr
    · exact hn

/-- The line ends in the bytes of a text are those of its characters. -/
theorem startsFrom_flatMap (offset : Nat) (x : List Char) :
    startsFrom offset (x.flatMap String.utf8EncodeChar) = lineStarts offset x := by
  fun_induction lineStarts offset x with
  | case1 => rfl
  | case2 offset rest ih =>
    rw [← ih]
    rfl
  | case3 offset rest hne ih =>
    rw [← ih]
    change startsFrom offset (13 :: rest.flatMap String.utf8EncodeChar) = _
    rw [startsFrom]
    -- the next byte is no half of a line end, since the next character is not
    intro bytes hbytes
    cases rest with
    | nil => cases hbytes
    | cons c rest =>
      rw [List.flatMap_cons] at hbytes
      cases hc : String.utf8EncodeChar c with
      | nil =>
        have hlength := String.length_utf8EncodeChar c
        have hpos := c.utf8Size_pos
        rw [hc, List.length_nil] at hlength
        omega
      | cons b bs =>
        rw [hc] at hbytes
        cases hbytes
        obtain rfl : c = '\n' := eq_of_mem_utf8EncodeChar (by decide) (by rw [hc]; exact List.mem_cons_self ..) rfl
        exact hne rest rfl
  | case4 offset rest ih =>
    rw [← ih]
    rfl
  | case5 offset c rest _ hr hn ih =>
    rw [← ih, List.flatMap_cons, startsFrom_append_of_ne, String.length_utf8EncodeChar]
    refine fun b hb => ⟨?_, ?_⟩
    · rintro rfl
      exact hr (eq_of_mem_utf8EncodeChar (by decide) hb rfl)
    · rintro rfl
      exact hn (eq_of_mem_utf8EncodeChar (by decide) hb rfl)

theorem starts_ofText (source : String) :
    (ofText source).starts.toList = 0 :: lineStarts 0 source.toList := by
  have hbytes : source.toByteArray.data.toList = source.toList.flatMap String.utf8EncodeChar := by
    rw [← String.ofList_toList (s := source), String.toByteArray_ofList, List.utf8Encode,
      List.toList_data_toByteArray, String.toList_ofList]
  rw [ofText, hbytes, startsFrom_flatMap]

/-! ### Looking up -/

variable {starts : Array Nat}

theorem lt_of_pairwise (hsorted : starts.toList.Pairwise (· < ·)) {i j a b : Nat} (ha : starts[i]? = some a)
    (hb : starts[j]? = some b) (hij : i < j) : a < b := by
  rw [← Array.getElem?_toList] at ha hb
  obtain ⟨hi, rfl⟩ := List.getElem?_eq_some_iff.1 ha
  obtain ⟨hj, rfl⟩ := List.getElem?_eq_some_iff.1 hb
  exact List.pairwise_iff_getElem.1 hsorted i j hi hj hij

/-- Bisection ends at `offset`, or between the smaller and the larger starts. -/
theorem search_spec (offset : Nat) (hsorted : starts.toList.Pairwise (· < ·)) (lo hi : Nat)
    (hhi : hi ≤ starts.size) (hle : lo ≤ hi) (hlo : ∀ j a, starts[j]? = some a → j < lo → a < offset)
    (hup : ∀ j a, starts[j]? = some a → hi ≤ j → offset < a) :
    match search starts offset lo hi hhi with
    | .ok i => starts[i]? = some offset
    | .error i => i ≤ starts.size ∧
        ∀ j a, starts[j]? = some a → (j < i → a < offset) ∧ (i ≤ j → offset < a) := by
  fun_induction search starts offset lo hi hhi with
  | case1 lo hi hhi hlh mid hmid heq => exact Array.getElem?_eq_some_iff.2 ⟨hmid, heq⟩
  | case2 lo hi hhi hlh mid hmid hne hless ih =>
    have hmid' : mid = lo + (hi - lo) / 2 := rfl
    refine ih (by omega) (fun j a ha hj => ?_) hup
    rcases Nat.lt_or_eq_of_le (Nat.le_of_lt_succ hj) with hj | rfl
    · exact Nat.lt_trans (lt_of_pairwise hsorted ha (Array.getElem?_eq_getElem hmid) hj) hless
    · rw [Array.getElem?_eq_getElem hmid] at ha
      cases ha
      exact hless
  | case3 lo hi hhi hlh mid hmid hne hless ih =>
    have hmore : offset < starts[mid] := by omega
    refine ih (Nat.le_add_right _ _) hlo fun j a ha hj => ?_
    rcases Nat.lt_or_eq_of_le hj with hj | rfl
    · exact Nat.lt_trans hmore (lt_of_pairwise hsorted (Array.getElem?_eq_getElem hmid) ha hj)
    · rw [Array.getElem?_eq_getElem hmid] at ha
      cases ha
      exact hmore
  | case4 lo hi hhi hlh => exact ⟨by omega, fun j a ha => ⟨hlo j a ha, fun hj => hup j a ha (by omega)⟩⟩

/-- The line of an offset is the last one that does not start behind it. -/
theorem line?_eq {table : LineTable} {front back : List Nat} {start offset : Nat}
    (hstarts : table.starts.toList = front ++ start :: back) (hsorted : table.starts.toList.Pairwise (· < ·))
    (hstart : start ≤ offset) (hback : ∀ a ∈ back, offset < a) : table.line? offset = some front.length := by
  have hspec := search_spec offset hsorted 0 table.starts.size (Nat.le_refl _)
    (Nat.zero_le _) (fun _ _ _ hj => absurd hj (Nat.not_lt_zero _)) fun j a ha hj => by
      rw [Array.getElem?_eq_none hj] at ha
      cases ha
  have hget : ∀ j, table.starts[j]? = (front ++ start :: back)[j]? := fun j => by
    rw [← Array.getElem?_toList, hstarts]
  have hlast : table.starts[front.length]? = some start := by
    rw [hget, List.getElem?_append_right (Nat.le_refl _), Nat.sub_self]
    rfl
  have hbehind : ∀ j a, table.starts[j]? = some a → front.length < j → offset < a := by
    intro j a ha hj
    obtain ⟨k, rfl⟩ : ∃ k, j = front.length + (k + 1) := ⟨j - front.length - 1, by omega⟩
    rw [hget, List.getElem?_append_right (by omega), Nat.add_sub_cancel_left, List.getElem?_cons_succ] at ha
    exact hback a (List.mem_of_getElem? ha)
  rw [line?]
  cases hsearch : search table.starts offset 0 table.starts.size (Nat.le_refl _) with
  | ok i =>
    rw [hsearch] at hspec
    rcases Nat.lt_trichotomy i front.length with hi | rfl | hi
    · have := lt_of_pairwise hsorted hspec hlast hi
      omega
    · rfl
    · have := hbehind i offset hspec hi
      omega
  | error i =>
    rw [hsearch] at hspec
    obtain ⟨hsize, hspec⟩ := hspec
    have hi : front.length < i := by
      by_contra hle
      have := (hspec _ _ hlast).2 (by omega)
      omega
    obtain ⟨k, rfl⟩ : ∃ k, i = k + 1 := ⟨i - 1, by omega⟩
    refine congrArg some (Nat.le_antisymm ?_ (Nat.le_of_lt_succ hi))
    by_contra hlt
    have hksize : k < table.starts.size := hsize
    have hk : table.starts[k]? = some table.starts[k] := Array.getElem?_eq_getElem hksize
    have hless := (hspec k _ hk).1 (Nat.lt_succ_self k)
    have hmore := hbehind k _ hk (by omega)
    omega

end LineTable

/-! ### Positions -/

theorem Text.byteSize_eq (x : List Char) : byteSize x = (String.ofList x).utf8ByteSize := by
  rw [String.utf8ByteSize_ofList]
  induction x with
  | nil => rfl
  | cons c x ih => rw [byteSize, String.utf8Len_cons, ih, Nat.add_comm]

theorem Text.pos?_eq_some {source : String} {offset : String.Pos.Raw} (h : offset.IsValid source) :
    source.pos? offset = some ⟨offset, h⟩ := by
  have hslice : offset.isValidForSlice source.toSlice = true := by simpa using h
  rw [String.pos?, String.Slice.pos?, dif_pos hslice]
  rfl

/-- The text behind another one is found at the bytes of that one. -/
theorem Text.slice?_eq {source : String} {x y z : List Char} (h : source.toList = x ++ (y ++ z)) :
    slice? source (byteSize x) (byteSize (x ++ y)) = some (String.ofList y) := by
  have hsource : source = String.ofList x ++ (String.ofList y ++ String.ofList z) := by
    rw [← String.ofList_append, ← String.ofList_append, ← h, String.ofList_toList]
  have hstart : String.Pos.Raw.IsValid source ⟨byteSize x⟩ :=
    String.Pos.Raw.isValid_iff_exists_append.2 ⟨_, _, hsource, by rw [byteSize_eq]; rfl⟩
  have hstop : String.Pos.Raw.IsValid source ⟨byteSize (x ++ y)⟩ := by
    refine String.Pos.Raw.isValid_iff_exists_append.2
      ⟨String.ofList (x ++ y), String.ofList z, ?_, by rw [byteSize_eq]; rfl⟩
    rw [hsource, String.ofList_append, String.append_assoc]
  have hle : (⟨⟨byteSize x⟩, hstart⟩ : source.Pos) ≤ ⟨⟨byteSize (x ++ y)⟩, hstop⟩ := by
    change byteSize x ≤ byteSize (x ++ y)
    rw [byteSize_append]
    exact Nat.le_add_right _ _
  have hbytes : source.extract ⟨⟨byteSize x⟩, hstart⟩ ⟨⟨byteSize (x ++ y)⟩, hstop⟩ = String.ofList y := by
    rw [← String.toByteArray_inj]
    change source.toByteArray.extract (byteSize x) (byteSize (x ++ y)) = _
    have hskip := ByteArray.extract_append_size_add (a := (String.ofList x).toByteArray)
      (b := (String.ofList y).toByteArray ++ (String.ofList z).toByteArray) (i := 0)
      (j := (String.ofList y).toByteArray.size)
    rw [Nat.add_zero, ByteArray.extract_append_eq_left rfl, String.size_toByteArray, String.size_toByteArray,
      ← byteSize_eq, ← byteSize_eq, ← byteSize_append] at hskip
    rw [hsource, String.toByteArray_append, String.toByteArray_append, hskip]
  simp only [slice?, pos?_eq_some hstart, pos?_eq_some hstop, Option.bind_eq_bind, Option.bind_some, if_pos hle,
    hbytes]

/-- The table knows every place but the middle of a line end. -/
theorem LineTable.position?_eq {source : String} (h : source.toList = x ++ y)
    (hwhole : x.getLast? = some '\r' → y.head? ≠ some '\n') :
    (ofText source).position? source (byteSize x) = some (.behind x) := by
  obtain ⟨before, front, hx, hfront, hlength⟩ := Text.exists_lineStarts x
  have hstarts : (ofText source).starts.toList = front ++ byteSize before :: lineStarts (byteSize x) y := by
    rw [starts_ofText, h, Text.lineStarts_append 0 hwhole, Nat.zero_add, ← List.cons_append, hfront, List.append_assoc]
    rfl
  have hsorted : (ofText source).starts.toList.Pairwise (· < ·) := by
    rw [starts_ofText]
    exact List.pairwise_cons.2 ⟨fun a ha => Text.lt_of_mem_lineStarts ha, Text.pairwise_lineStarts 0 _⟩
  have hle : byteSize before ≤ byteSize x := by
    rw [hx, Text.byteSize_append]
    exact Nat.le_add_right _ _
  have hline := line?_eq hstarts hsorted hle fun a ha => Text.lt_of_mem_lineStarts ha
  have hstart : (ofText source).starts[front.length]? = some (byteSize before) := by
    rw [← Array.getElem?_toList, hstarts, List.getElem?_append_right (Nat.le_refl _), Nat.sub_self]
    rfl
  have hslice : Text.slice? source (byteSize before) (byteSize x) = some (String.ofList (lastLine x)) := by
    have hsource : source.toList = before ++ (lastLine x ++ y) := by rw [h, ← List.append_assoc, ← hx]
    have := Text.slice?_eq hsource
    rwa [← hx] at this
  simp only [position?, hline, hstart, hslice, Option.bind_eq_bind, Option.bind_some, String.length_ofList]
  rw [hlength, Position.behind, Nat.add_comm 1, Nat.add_comm 1]
  rfl

end GrammarFormat
