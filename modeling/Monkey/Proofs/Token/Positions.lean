import Mathlib.Data.List.DropRight
import Monkey.Proofs.Token.Tiling

/-!
# Where tokens stand

The place of a token is carried along while a source is read, byte by byte, over the blanks and over
the tokens before it. It is the place that can be counted out from the bytes in front of it alone:
its line is one more than the line feeds among them, and its column is one more than the bytes after
the last of these. `following` is that count, and `start_after` says that both are the same.

Reading a byte leads to a later place, and so each token stands after the one before it.
-/

namespace Monkey

namespace Position

/-- The place of what comes after the bytes `before`, counted out from all of them. -/
def following (before : Bytes) : Position :=
  ⟨1 + before.count 0x0a, 1 + (before.rtakeWhile (· != 0x0a)).length⟩

/-- Going on from byte to byte leads where counting does. -/
theorem start_after (bs : Bytes) : start.after bs = following bs := by
  induction bs using List.reverseRecOn with
  | nil => rfl
  | append_singleton bs b ih =>
      rw [after_append, ih, after_cons, after_nil]
      by_cases hb : b = 0x0a
      · subst hb
        have hrun : (bs ++ [0x0a]).rtakeWhile (· != 0x0a) = [] :=
          List.rtakeWhile_concat_neg _ bs 0x0a (by decide)
        simp [next, following, hrun, Nat.add_assoc]
      · have hrun : (bs ++ [b]).rtakeWhile (· != 0x0a) = bs.rtakeWhile (· != 0x0a) ++ [b] :=
          List.rtakeWhile_concat_pos _ bs b (by simpa using hb)
        simp [next, following, hrun, hb, Nat.add_assoc]

/-- Places are in the order of their lines, and in a line in the order of their columns. -/
instance : LT Position := ⟨fun p q => p.line < q.line ∨ p.line = q.line ∧ p.column < q.column⟩

theorem lt_iff {p q : Position} :
    p < q ↔ p.line < q.line ∨ p.line = q.line ∧ p.column < q.column := Iff.rfl

theorem lt_trans {p q r : Position} (hpq : p < q) (hqr : q < r) : p < r := by
  rw [lt_iff] at hpq hqr ⊢
  omega

theorem lt_next (p : Position) (b : UInt8) : p < p.next b := by
  unfold next
  split
  · exact .inl (Nat.lt_succ_self p.line)
  · exact .inr ⟨rfl, Nat.lt_succ_self p.column⟩

theorem lt_after (p : Position) {bs : Bytes} (hne : bs ≠ []) : p < p.after bs := by
  induction bs generalizing p with
  | nil => exact absurd rfl hne
  | cons b bs ih =>
      rw [after_cons]
      by_cases hbs : bs = []
      · subst hbs
        exact lt_next p b
      · exact lt_trans (lt_next p b) (ih (p.next b) hbs)

end Position

namespace Token

theorem slice_lexeme_ne_nil (b : UInt8) (rest : Bytes) : (lexeme b rest).slice ≠ [] := by
  intro hnil
  have hlength := length_rest_lexeme_le b rest
  have happend := slice_append_rest b rest
  rw [hnil, List.nil_append] at happend
  rw [happend, List.length_cons] at hlength
  omega

namespace Cursor

/-- A token stands where the blanks before it end, and what is left starts after its bytes. -/
theorem pos_of_next? {c c' : Cursor} {t : Token} (h : c.next? = some (t, c')) :
    ∃ gap slice, slice ≠ [] ∧ t.pos = c.pos.after gap ∧ c'.pos = t.pos.after slice := by
  rw [next?] at h
  split at h
  · cases h
  · next b rest pos hc =>
      cases h
      have hstart : c.pos.after (c.rest.takeWhile isBlank) = pos := congrArg Cursor.pos hc
      exact ⟨_, _, slice_lexeme_ne_nil b rest, hstart.symm, rfl⟩

namespace Scans

variable {c : Cursor} {ts : List Token} {stop : Position}

/-- The end is where all the bytes lead. -/
theorem stop_eq (h : Scans c ts stop) : stop = c.finish := by
  induction h with
  | @done c hnext =>
      have hall : c.rest.takeWhile isBlank = c.rest :=
        List.takeWhile_eq_self_iff.mpr (isBlank_of_next?_eq_none hnext)
      rw [skipBlanks, hall, finish]
  | token hnext more ih => exact ih.trans (next?_onto hnext []).2

/-- Nothing is read at a place before the cursor. -/
theorem exists_pos_eq (h : Scans c ts stop) :
    ∀ p ∈ ts.map Token.pos ++ [stop], ∃ bs, p = c.pos.after bs := by
  induction h with
  | @done c hnext =>
      intro p hp
      exact ⟨_, List.mem_singleton.mp hp⟩
  | token hnext more ih =>
      obtain ⟨gap, slice, -, hpos, hpos'⟩ := pos_of_next? hnext
      intro p hp
      rcases List.mem_cons.mp hp with rfl | hp
      · exact ⟨gap, hpos⟩
      · obtain ⟨bs, rfl⟩ := ih p hp
        exact ⟨gap ++ slice ++ bs, by
          rw [hpos', hpos, Position.after_append, Position.after_append]⟩

/-- Tokens stand one after the other, and the end comes after all of them. -/
theorem pairwise_pos (h : Scans c ts stop) : (ts.map Token.pos ++ [stop]).Pairwise (· < ·) := by
  induction h with
  | done hnext => exact List.pairwise_singleton _ _
  | @token c c' t ts stop hnext more ih =>
      refine List.pairwise_cons.mpr ⟨fun p hp => ?_, ih⟩
      obtain ⟨gap, slice, hne, -, hpos'⟩ := pos_of_next? hnext
      obtain ⟨bs, rfl⟩ := more.exists_pos_eq p hp
      rw [hpos', ← Position.after_append]
      exact t.pos.lt_after (List.append_ne_nil_of_left_ne_nil hne bs)

end Scans

end Cursor

/-- Where the source has ended, each end token stands one column further. -/
theorem Cursor.reads_ended (stop : Position) (n : Nat) :
    reads n ⟨[], stop⟩ =
      (List.range n).map fun k => ⟨.eof, [], ⟨stop.line, stop.column + k⟩⟩ := by
  induction n generalizing stop with
  | zero => rfl
  | succ n ih =>
      have hstep : reads (n + 1) ⟨[], stop⟩ =
          ⟨.eof, [], stop⟩ :: reads n ⟨[], ⟨stop.line, stop.column + 1⟩⟩ := rfl
      rw [hstep, ih, List.range_succ_eq_map, List.map_cons, List.map_map]
      refine congrArg (_ :: ·) (List.map_congr_left fun k _ => ?_)
      have hcolumn : stop.column + 1 + k = stop.column + (k + 1) := by
        rw [Nat.add_assoc, Nat.add_comm 1]
      simp only [Function.comp_apply, Nat.succ_eq_add_one, hcolumn]

/-- Every token of a source stands where its first byte does, by lines and by bytes in the line, and
the end token stands at the end. So they stand one after the other, and whoever reads on gets end
tokens in the same line, each in the next column. -/
theorem tokens_pos (source : Bytes) :
    (∃ pieces tail, source = Piece.textOf pieces ++ tail ∧ (∀ b ∈ tail, isBlank b = true) ∧
        tokens source = pieces.map Piece.token ++ [⟨.eof, [], .following source⟩] ∧
        ∀ us p vs, pieces = us ++ p :: vs →
          (∀ b ∈ p.gap, isBlank b = true) ∧
            Cut (Piece.textOf us ++ p.gap) (Piece.textOf vs ++ tail) p.slice p.token.kind
              p.token.literal ∧
            p.token.pos = .following (Piece.textOf us ++ p.gap)) ∧
      ((tokens source).map Token.pos).Pairwise (· < ·) ∧
      (∀ n, ((Stream.ofSource source).take n).1 = Cursor.reads n ⟨source, .start⟩) ∧
      ∀ n, ((Stream.ofSource source).take ((tokens source).length + n)).1 =
        tokens source ++ (List.range n).map fun k =>
          ⟨.eof, [], ⟨(Position.following source).line,
            (Position.following source).column + (k + 1)⟩⟩ := by
  obtain ⟨ts, stop, hscans⟩ := Cursor.exists_scans ⟨source, .start⟩
  obtain rfl : stop = .following source := hscans.stop_eq.trans (Position.start_after source)
  have hstream : Stream.ofSource source =
      ⟨ts, .following source, fun pos => (Cursor.next ⟨[], pos⟩).2.pos⟩ := by
    rw [Stream.ofSource, scan_of_scans hscans]
  have htokens : tokens source = ts ++ [⟨.eof, [], .following source⟩] := by
    rw [tokens, hstream]
    rfl
  refine ⟨?_, ?_, Stream.take_ofSource source, fun n => ?_⟩
  · have hapart : Apart [] source := fun b hb => absurd hb (by simp)
    obtain ⟨pieces, tail, hsource, rfl, htail, hall⟩ := hscans.exists_pieces rfl hapart
    refine ⟨pieces, tail, hsource, htail, htokens, fun us p vs heq => ?_⟩
    obtain ⟨hgap, hcut, hpos⟩ := hall us p vs heq
    exact ⟨hgap, hcut, hpos.trans (Position.start_after _)⟩
  · rw [htokens, List.map_append]
    exact hscans.pairwise_pos
  · have hdrain : (Stream.ofSource source).drain.2 = ⟨[], ⟨(Position.following source).line,
        (Position.following source).column + 1⟩, fun pos => (Cursor.next ⟨[], pos⟩).2.pos⟩ := by
      rw [hstream]
      rfl
    rw [tokens, Stream.take_drain, hdrain, Stream.take_of_ended, Cursor.reads_ended]
    simp only [Nat.add_assoc, Nat.add_comm 1]

end Token

end Monkey
