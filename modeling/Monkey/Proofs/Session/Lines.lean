import Mathlib.Tactic.Common
import Mathlib.Data.List.Infix
import Monkey.Session.Lines

/-!
# The lines of a text

A line feed ends a line, and a carriage return directly before it goes with it. `linesOf` says so
without any way of reading, and both ways of reading give these lines where no line is too long for
them. They differ in a text that ends with a carriage return: for the input of a session that is the
end of a line as well, for a line editor it is a byte of the last line.
-/

namespace Monkey.Session

/-- The lines of a text. What comes after the last line feed is a line if it is not empty. -/
def linesOf : Bytes → List Bytes
  | [] => []
  | b :: rest =>
    if b = 0x0a then [] :: linesOf rest
    else if b = 0x0d ∧ rest.head? = some 0x0a then linesOf rest
    else match linesOf rest with
      | [] => [[b]]
      | line :: lines => (b :: line) :: lines

/-- The lines of an input, where a carriage return at the very end is the end of a line too. -/
def inputLines (input : Bytes) : List Bytes :=
  linesOf (if input.getLast? = some 0x0d then input ++ [0x0a] else input)

/-- Every stretch of the text without a line feed is shorter than `bound`. -/
def Fits (bound : Nat) (text : Bytes) : Prop :=
  ∀ part, part <:+: text → 0x0a ∉ part → part.length < bound

theorem fits_of_length_lt {bound : Nat} {text : Bytes} (h : text.length < bound) :
    Fits bound text :=
  fun _ hpart _ => Nat.lt_of_le_of_lt hpart.length_le h

section Fits

variable {bound : Nat} {line rest : Bytes} {b : UInt8}

theorem Fits.of_append_cons (h : Fits bound (line ++ b :: rest)) : Fits bound rest :=
  fun part hpart => h part
    (hpart.trans ((List.suffix_cons b rest).trans (List.suffix_append line (b :: rest))).isInfix)

/-- There is room for one more byte of a line, which is given backwards. -/
theorem Fits.length_lt (h : Fits bound (line.reverse ++ b :: rest)) (hline : 0x0a ∉ b :: line) :
    line.length + 1 < bound := by
  have hpart : (b :: line).reverse <:+: line.reverse ++ b :: rest := by
    simpa using (List.prefix_append (line.reverse ++ [b]) rest).isInfix
  have hlength := h _ hpart (fun hmem => hline (List.mem_reverse.mp hmem))
  simpa using hlength

end Fits

/-- A line without the carriage return at its end. -/
def dropReturn (line : Bytes) : Bytes :=
  if line.getLast? = some 0x0d then line.dropLast else line

theorem dropReturn_of_ne {line : Bytes} (h : line.getLast? ≠ some 0x0d) : dropReturn line = line :=
  if_neg h

theorem dropReturn_cons (b : UInt8) {line : Bytes} (hne : line ≠ []) :
    dropReturn (b :: line) = b :: dropReturn line := by
  obtain ⟨c, rest, rfl⟩ := List.exists_cons_of_ne_nil hne
  unfold dropReturn
  rw [List.getLast?_cons_cons, List.dropLast_cons_cons]
  split <;> rfl

theorem finish_eq_dropReturn (line : Bytes) : Lines.finish line = dropReturn line.reverse := by
  unfold Lines.finish
  split
  · simp [dropReturn]
  · next hne =>
      rw [dropReturn_of_ne]
      rw [List.getLast?_reverse]
      intro hhead
      obtain ⟨rest, rfl⟩ := List.head?_eq_some_iff.mp hhead
      exact hne rest rfl

section LinesOf

variable {line rest : Bytes}

/-- A line feed ends the line before it. -/
theorem linesOf_append_lineFeed (hline : 0x0a ∉ line) (rest : Bytes) :
    linesOf (line ++ 0x0a :: rest) = dropReturn line :: linesOf rest := by
  induction line with
  | nil => rfl
  | cons b line ih =>
      obtain ⟨hb, hline⟩ := not_or.mp (mt List.mem_cons.mpr hline)
      rw [List.cons_append, linesOf, if_neg (Ne.symm hb), ih hline]
      cases line with
      | nil =>
          by_cases hreturn : b = 0x0d
          · simp [hreturn, dropReturn]
          · simp [hreturn, dropReturn]
      | cons c line =>
          have hc : c ≠ 0x0a := fun h => hline (h ▸ .head _)
          rw [dropReturn_cons b (List.cons_ne_nil c line)]
          simp [hc]

/-- Without a line feed there is only one line. -/
theorem linesOf_of_not_mem (hline : 0x0a ∉ line) (hne : line ≠ []) : linesOf line = [line] := by
  induction line with
  | nil => exact absurd rfl hne
  | cons b line ih =>
      obtain ⟨hb, hline⟩ := not_or.mp (mt List.mem_cons.mpr hline)
      rw [linesOf, if_neg (Ne.symm hb), if_neg (fun h => hline (List.mem_of_mem_head? h.2))]
      cases line with
      | nil => rfl
      | cons c line => rw [ih hline (List.cons_ne_nil c line)]

theorem inputLines_append_lineFeed (hline : 0x0a ∉ line) (rest : Bytes) :
    inputLines (line ++ 0x0a :: rest) = dropReturn line :: inputLines rest := by
  have hlast : (line ++ 0x0a :: rest).getLast? = some 0x0d ↔ rest.getLast? = some 0x0d := by
    cases rest <;> simp
  unfold inputLines
  by_cases hreturn : rest.getLast? = some 0x0d
  · rw [if_pos (hlast.mpr hreturn), if_pos hreturn, List.append_assoc, List.cons_append,
      linesOf_append_lineFeed hline]
  · rw [if_neg (hlast.not.mpr hreturn), if_neg hreturn, linesOf_append_lineFeed hline]

theorem inputLines_of_not_mem (hline : 0x0a ∉ line) (hne : line ≠ []) :
    inputLines line = [dropReturn line] := by
  unfold inputLines
  split
  · exact linesOf_append_lineFeed hline []
  · next hlast => rw [dropReturn_of_ne hlast, linesOf_of_not_mem hline hne]

end LinesOf

namespace Lines

/-- Reading on from the start of a line. -/
theorem readOnto_eq (done : List Bytes) {line : Bytes} (input : Bytes) (hline : 0x0a ∉ line)
    (hfits : Fits limit (line.reverse ++ input)) :
    readOnto done line line.length input =
      ⟨done.reverse ++ inputLines (line.reverse ++ input), false⟩ := by
  induction input generalizing done line with
  | nil =>
      rw [List.append_nil, readOnto]
      cases line with
      | nil => simp [inputLines, linesOf]
      | cons b line =>
          rw [inputLines_of_not_mem (mt List.mem_reverse.mp hline) (by simp),
            ← finish_eq_dropReturn]
          simp
  | cons b input ih =>
      rw [readOnto]
      by_cases hb : b = 0x0a
      · subst hb
        have hnext := @ih (finish line :: done) [] List.not_mem_nil hfits.of_append_cons
        rw [if_pos rfl, inputLines_append_lineFeed (mt List.mem_reverse.mp hline),
          ← finish_eq_dropReturn]
        simpa using hnext
      · have hmore : 0x0a ∉ b :: line := List.not_mem_cons_of_ne_of_not_mem (Ne.symm hb) hline
        have hnext := ih done hmore (by simpa using hfits)
        rw [if_neg hb, if_neg (Nat.not_le_of_lt (hfits.length_lt hmore))]
        simpa using hnext

/-- An input without a line that is too long is read line by line. -/
theorem ofInput_eq {input : Bytes} (hfits : Fits limit input) :
    ofInput input = ⟨inputLines input, false⟩ :=
  readOnto_eq [] input List.not_mem_nil hfits

end Lines

/-- Reading on from the start of a piece. -/
theorem Piece.readOnto_eq (done : List Piece) {piece : Bytes} (text : Bytes)
    (hpiece : 0x0a ∉ piece) (hfits : Fits windowSize (piece.reverse ++ text)) :
    readOnto done piece piece.length text =
      done.reverse ++ (linesOf (piece.reverse ++ text)).map (⟨·, false⟩) := by
  induction text generalizing done piece with
  | nil =>
      rw [List.append_nil, readOnto]
      cases piece with
      | nil => simp [linesOf]
      | cons b piece =>
          rw [linesOf_of_not_mem (mt List.mem_reverse.mp hpiece) (by simp)]
          simp
  | cons b text ih =>
      rw [readOnto]
      by_cases hb : b = 0x0a
      · subst hb
        have hnext := @ih (⟨Lines.finish piece, false⟩ :: done) [] List.not_mem_nil
          hfits.of_append_cons
        rw [if_pos rfl, linesOf_append_lineFeed (mt List.mem_reverse.mp hpiece),
          ← finish_eq_dropReturn]
        simpa using hnext
      · have hmore : 0x0a ∉ b :: piece := List.not_mem_cons_of_ne_of_not_mem (Ne.symm hb) hpiece
        have hnext := ih done hmore (by simpa using hfits)
        rw [if_neg hb, if_pos (hfits.length_lt hmore)]
        simpa using hnext

/-- A text without a line that is too long for the window is read line by line. -/
theorem pieces_eq {text : Bytes} (hfits : Fits Piece.windowSize text) :
    pieces text = (linesOf text).map (⟨·, false⟩) :=
  Piece.readOnto_eq [] text List.not_mem_nil hfits

theorem map_text_pieces {text : Bytes} (hfits : Fits Piece.windowSize text) :
    (pieces text).map Piece.text = linesOf text := by
  rw [pieces_eq hfits, List.map_map]
  exact List.map_id' (linesOf text)

end Monkey.Session
