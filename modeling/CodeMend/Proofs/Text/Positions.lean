import CodeMend.Text.LineIndex
import Mathlib.Data.List.Pairwise
import Mathlib.Data.Option.Basic

/-!
# Offsets and positions

The lines of a text stand one behind the other, with a line feed between two of them; `placed` lists
them with the offsets at which they start.  The line starts of an index are these offsets
(`starts_eq`), and each offset of the text lies on exactly one line or at its end (`exists_line`,
`position_of_line`).

So an offset is that of its position, and a position is that of its offset if it lies inside the text:
on a line, and no further behind it than its line feed or the end of the text
(`position_offset`).  A column behind that is no obstacle for `LineIndex.offset?`, as long as the text
goes on far enough (`not_position_offset`).
-/

namespace CodeMend

namespace LineIndex

/-- The number of bytes of a row of characters. -/
def bytes (cs : List Char) : Nat := (String.ofList cs).utf8ByteSize

theorem bytes_append (cs ds : List Char) : bytes (cs ++ ds) = bytes cs + bytes ds := by
  rw [bytes, String.ofList_append, String.utf8ByteSize_append, bytes, bytes]

theorem bytes_cons (c : Char) (cs : List Char) : bytes (c :: cs) = c.utf8Size + bytes cs := by
  rw [← List.singleton_append, bytes_append]
  simp [bytes]

/-- The lines of a text, without the line feeds between them. -/
def lines (text : String) : List (List Char) := text.toList.splitOn '\n'

/-- Lines with the offsets at which they start, from offset `here` on. -/
def placed : Nat → List (List Char) → List (Nat × List Char)
  | _, [] => []
  | here, l :: ls => (here, l) :: placed (here + bytes l + 1) ls

theorem map_snd_placed (here : Nat) (ls : List (List Char)) : (placed here ls).map Prod.snd = ls := by
  induction ls generalizing here with
  | nil => rfl
  | cons l ls ih => rw [placed, List.map_cons, ih]

/-- The line starts behind the first one are those of the lines behind the first one. -/
theorem startsFrom_eq (here : Nat) (cs : List Char) :
    startsFrom here cs = ((placed here (cs.splitOn '\n')).map Prod.fst).tail := by
  induction cs generalizing here with
  | nil => rfl
  | cons c cs ih =>
      obtain ⟨l, ls, hlines⟩ := List.exists_cons_of_ne_nil (List.splitOn_ne_nil '\n' cs)
      rw [startsFrom, List.splitOn_cons_eq_if_modifyHead, ih, hlines]
      split
      · next hfeed =>
        rw [beq_iff_eq.1 hfeed]
        rfl
      · simp only [placed, List.modifyHead_cons, List.map_cons, List.tail_cons, bytes_cons,
          Nat.add_assoc]

theorem starts_eq (text : String) : (ofText text).starts = (placed 0 (lines text)).map Prod.fst := by
  obtain ⟨l, ls, hlines⟩ := List.exists_cons_of_ne_nil (List.splitOn_ne_nil '\n' text.toList)
  show 0 :: startsFrom 0 text.toList = _
  rw [startsFrom_eq, lines, hlines]
  rfl

/-- A line ends before the next one starts. -/
theorem placed_ordered (here : Nat) (ls : List (List Char)) :
    (∀ x ∈ placed here ls, here ≤ x.1) ∧
      (placed here ls).Pairwise fun x y => x.1 + bytes x.2 < y.1 := by
  induction ls generalizing here with
  | nil => exact ⟨nofun, .nil⟩
  | cons l ls ih =>
      obtain ⟨hbehind, hordered⟩ := ih (here + bytes l + 1)
      refine ⟨List.forall_mem_cons.2 ⟨Nat.le_refl here, fun x hx => ?_⟩, .cons (fun x hx => ?_) hordered⟩
      · have hx := hbehind x hx
        omega
      · exact hbehind x hx

theorem bytes_intercalate (l l' : List Char) (ls : List (List Char)) :
    bytes (['\n'].intercalate (l :: l' :: ls)) =
      bytes l + 1 + bytes (['\n'].intercalate (l' :: ls)) := by
  rw [List.intercalate_cons_cons, bytes_append, bytes_append]
  rfl

/-- No line ends behind the end of all. -/
theorem placed_le (here : Nat) (ls : List (List Char)) :
    ∀ x ∈ placed here ls, x.1 + bytes x.2 ≤ here + bytes (['\n'].intercalate ls) := by
  induction ls generalizing here with
  | nil => exact nofun
  | cons l ls ih =>
      cases ls with
      | nil => simp [placed]
      | cons l' ls =>
          rw [bytes_intercalate]
          refine List.forall_mem_cons.2 ⟨by dsimp only; omega, fun x hx => ?_⟩
          have hx := ih (here + bytes l + 1) x hx
          omega

/-- Every offset up to the end lies on a line or at its end. -/
theorem exists_placed (here : Nat) {o : Nat} {ls : List (List Char)} (hne : ls ≠ []) (hlow : here ≤ o)
    (hhigh : o ≤ here + bytes (['\n'].intercalate ls)) :
    ∃ before s l after, placed here ls = before ++ (s, l) :: after ∧ s ≤ o ∧ o ≤ s + bytes l := by
  induction ls generalizing here with
  | nil => exact absurd rfl hne
  | cons l ls ih =>
      by_cases hline : o ≤ here + bytes l
      · exact ⟨[], here, l, _, rfl, hlow, hline⟩
      · cases ls with
        | nil =>
            rw [List.intercalate_singleton] at hhigh
            exact absurd hhigh hline
        | cons l' ls =>
            rw [bytes_intercalate] at hhigh
            obtain ⟨before, s, line, after, hsplit, hs, ho⟩ :=
              ih (here + bytes l + 1) (by simp) (by omega) (by omega)
            exact ⟨(here, l) :: before, s, line, after, by rw [placed, hsplit, List.cons_append], hs, ho⟩

/-! ## The index of a text -/

section

variable {text : String} {before after : List (Nat × List Char)} {s o : Nat} {l : List Char}
  {p : Position}

theorem bytes_lines (text : String) : bytes (['\n'].intercalate (lines text)) = text.utf8ByteSize := by
  rw [lines, List.intercalate_splitOn, bytes, String.ofList_toList]

theorem exists_line (ho : o ≤ text.utf8ByteSize) :
    ∃ before s l after, placed 0 (lines text) = before ++ (s, l) :: after ∧ s ≤ o ∧
      o ≤ s + bytes l := by
  refine exists_placed 0 (List.splitOn_ne_nil _ _) (Nat.zero_le o) ?_
  rwa [bytes_lines, Nat.zero_add]

theorem line_le (h : placed 0 (lines text) = before ++ (s, l) :: after) :
    s + bytes l ≤ text.utf8ByteSize := by
  have hle := placed_le 0 (lines text) (s, l) (by rw [h]; simp)
  rwa [bytes_lines, Nat.zero_add] at hle

/-- **The position of an offset on a line.** -/
theorem position_of_line (h : placed 0 (lines text) = before ++ (s, l) :: after) (hs : s ≤ o)
    (ho : o ≤ s + bytes l) : (ofText text).position o = ⟨before.length + 1, o - s + 1⟩ := by
  have hordered := (placed_ordered 0 (lines text)).2
  rw [h, List.pairwise_append, List.pairwise_cons] at hordered
  obtain ⟨-, ⟨hafter, -⟩, hbefore⟩ := hordered
  -- the lines before this one start before the offset, those behind it do not
  have hupTo : (ofText text).starts.takeWhile (· ≤ o) = before.map Prod.fst ++ [s] := by
    rw [starts_eq, h, List.map_append, List.map_cons, List.takeWhile_append_of_pos,
      List.takeWhile_cons_of_pos (by simpa using hs)]
    · cases after with
      | nil => rfl
      | cons y after =>
          have hy : s + bytes l < y.1 := hafter y List.mem_cons_self
          rw [List.map_cons, List.takeWhile_cons_of_neg]
          simp only [decide_eq_true_eq]
          omega
    · intro start hstart
      obtain ⟨x, hx, rfl⟩ := List.mem_map.1 hstart
      have hx := hbefore x hx (s, l) List.mem_cons_self
      simp only [decide_eq_true_eq]
      omega
  have hlength : min o (ofText text).length = o := Nat.min_eq_left (Nat.le_trans ho (line_le h))
  simp [position, hlength, hupTo]

/-- The offset of a position is looked up in the table of line starts, and the column is added
in 32 bits. -/
theorem offset_eq_some_iff {i : LineIndex} : i.offset? p = some o ↔
    0 < p.line ∧ 0 < p.column ∧ ∃ start, i.starts[p.line - 1]? = some start ∧
      p.column - 1 < offsetCount ∧ o ≤ i.length ∧ (start + (p.column - 1)) % offsetCount = o := by
  unfold offset?
  simp only [Option.bind_eq_bind, Option.bind_eq_some_iff, Option.guard_eq_some', exists_and_left,
    exists_const, Bool.and_eq_true, decide_eq_true_eq, Option.some.injEq, and_assoc]
  refine and_congr_right fun _ => and_congr_right fun _ => exists_congr fun start =>
    and_congr_right fun _ => and_congr_right fun _ => and_congr_left fun h => ?_
  rw [h]

/-- **The offset of a column on a line**, if the index can tell all offsets of the text. -/
theorem offset_of_line (hsize : text.utf8ByteSize < offsetCount)
    (h : placed 0 (lines text) = before ++ (s, l) :: after) {column : Nat} (hcolumn : column ≤ bytes l) :
    (ofText text).offset? ⟨before.length + 1, column + 1⟩ = some (s + column) := by
  have hend := line_le h
  refine offset_eq_some_iff.2 ⟨Nat.succ_pos _, Nat.succ_pos _, s, ?_, ?_, ?_, ?_⟩
  · rw [starts_eq, h]
    simp
  · show column < offsetCount
    omega
  · show s + column ≤ text.utf8ByteSize
    omega
  · exact Nat.mod_eq_of_lt (by show s + column < offsetCount; omega)

/-- Does a position lie inside the text: on a line of it, and no further behind it than its line feed or
the end of the text? -/
def Inside (text : String) (p : Position) : Prop :=
  0 < p.line ∧ 0 < p.column ∧
    ∃ line, (lines text)[p.line - 1]? = some line ∧ p.column ≤ bytes line + 1

/-- A position lies inside a text if its line is there and its column is not behind the bytes of
the line. -/
theorem inside_iff : Inside text p ↔ ∃ before s l after column,
    placed 0 (lines text) = before ++ (s, l) :: after ∧ column ≤ bytes l ∧
      p = ⟨before.length + 1, column + 1⟩ := by
  obtain ⟨row, column⟩ := p
  constructor
  · rintro ⟨hrow, hcolumn, line, hline, hle⟩
    obtain ⟨⟨s, l⟩, hplaced, rfl⟩ : ∃ x, (placed 0 (lines text))[row - 1]? = some x ∧ x.2 = line := by
      rwa [← map_snd_placed 0 (lines text), List.getElem?_map, Option.map_eq_some_iff] at hline
    obtain ⟨hlt, -⟩ := List.getElem?_eq_some_iff.1 hplaced
    refine ⟨(placed 0 (lines text)).take (row - 1), s, l, (placed 0 (lines text)).drop (row - 1 + 1),
      column - 1, ?_, by dsimp only at hle; omega, ?_⟩
    · have hdrop : (placed 0 (lines text)).drop (row - 1) =
          (s, l) :: (placed 0 (lines text)).drop (row - 1 + 1) := by
        rw [List.drop_eq_getElem?_toList_append, hplaced]
        rfl
      rw [← hdrop, List.take_append_drop]
    · rw [List.length_take_of_le (Nat.le_of_lt hlt), Position.mk.injEq]
      dsimp only at hrow hcolumn
      omega
  · rintro ⟨before, s, l, after, column, hsplit, hle, hp⟩
    obtain ⟨rfl, rfl⟩ := Position.mk.inj hp
    refine ⟨Nat.succ_pos _, Nat.succ_pos _, l, ?_, Nat.succ_le_succ hle⟩
    rw [← map_snd_placed 0 (lines text), hsplit]
    simp

end

end LineIndex

open LineIndex

/-- **Offsets and positions.**  In a text whose offsets are words, an offset is that of its position, a
position inside the text has an offset, and a position that has an offset is that of the offset if and
only if it lies inside the text. -/
theorem position_offset (text : String) (hsize : text.utf8ByteSize < offsetCount) :
    (∀ o, (ofText text).offset? ((ofText text).position o) = some o ↔ o ≤ text.utf8ByteSize) ∧
    (∀ p, Inside text p → ((ofText text).offset? p).isSome) ∧
    ∀ p o, (ofText text).offset? p = some o → ((ofText text).position o = p ↔ Inside text p) := by
  refine ⟨fun o => ⟨fun h => ?_, fun ho => ?_⟩, fun p hp => ?_, fun p o h => ⟨fun hp => ?_, fun hp => ?_⟩⟩
  · obtain ⟨-, -, -, -, -, hle, -⟩ := offset_eq_some_iff.1 h
    exact hle
  · obtain ⟨before, s, l, after, hsplit, hs, hend⟩ := exists_line ho
    rw [position_of_line hsplit hs hend, offset_of_line hsize hsplit (by omega),
      Nat.add_sub_cancel' hs]
  · obtain ⟨before, s, l, after, column, hsplit, hcolumn, rfl⟩ := inside_iff.1 hp
    rw [offset_of_line hsize hsplit hcolumn]
    rfl
  · obtain ⟨-, -, -, -, -, hle, -⟩ := offset_eq_some_iff.1 h
    obtain ⟨before, s, l, after, hsplit, hs, hend⟩ := exists_line hle
    rw [position_of_line hsplit hs hend] at hp
    exact inside_iff.2 ⟨before, s, l, after, o - s, hsplit, by omega, hp.symm⟩
  · obtain ⟨before, s, l, after, column, hsplit, hcolumn, rfl⟩ := inside_iff.1 hp
    obtain rfl : s + column = o := by
      rw [offset_of_line hsize hsplit hcolumn] at h
      exact Option.some.inj h
    rw [position_of_line hsplit (by omega) (by omega), Nat.add_sub_cancel_left]

/-- A column behind the line feed of the first line has an offset, which lies on the second one. -/
theorem position_offset_behind :
    "a\nb".utf8ByteSize < offsetCount ∧ (ofText "a\nb").offset? ⟨1, 3⟩ = some 2 ∧
      ((ofText "a\nb").position 2 = ⟨1, 3⟩ ↔ Inside "a\nb" ⟨1, 3⟩) :=
  ⟨by decide, by decide +kernel, (position_offset "a\nb" (by decide)).2.2 ⟨1, 3⟩ 2 (by decide +kernel)⟩

/-- A position that has an offset need not be that of the offset: its column can lie behind its line,
and so far behind it that the offset wraps. -/
theorem not_position_offset :
    (∃ o, (ofText "a\nb").offset? ⟨1, 3⟩ = some o ∧ (ofText "a\nb").position o ≠ ⟨1, 3⟩) ∧
      ∃ o, (ofText "\n").offset? ⟨2, offsetCount⟩ = some o ∧
        (ofText "\n").position o ≠ ⟨2, offsetCount⟩ :=
  ⟨⟨2, by decide +kernel, by decide +kernel⟩, 0, by decide +kernel, by decide +kernel⟩

end CodeMend
