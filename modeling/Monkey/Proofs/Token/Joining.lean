import Mathlib.Data.List.TakeWhile
import Monkey.Proofs.Token.Scanning

/-!
# Scanning two sources as one

No token goes on over the end of a line. If two sources are put together with a line feed between
them, then the tokens of the first one come first, just as they are, and after them those of the
second one, further down by the lines of the first one and in the same columns.
-/

namespace Monkey

namespace Position

/-- The place `k` lines below, in the same column. -/
def down (k : Nat) (p : Position) : Position := ⟨p.line + k, p.column⟩

theorem next_down (k : Nat) (p : Position) (b : UInt8) : (p.down k).next b = (p.next b).down k := by
  unfold next
  split
  · exact congrArg (Position.mk · 1) (Nat.add_right_comm p.line k 1)
  · rfl

theorem after_down (k : Nat) (p : Position) (bs : Bytes) :
    (p.down k).after bs = (p.after bs).down k := by
  induction bs generalizing p with
  | nil => rfl
  | cons b bs ih => rw [after_cons, after_cons, next_down, ih]

/-- After a line feed there is a new line, further down by all the line feeds before. -/
theorem after_lineFeed (p : Position) (bs : Bytes) :
    p.after (bs ++ [0x0a]) = ⟨p.line + (bs.count 0x0a + 1), 1⟩ := by
  induction bs generalizing p with
  | nil => rfl
  | cons b bs ih =>
      rw [List.cons_append, after_cons, ih, List.count_cons]
      by_cases hb : b = 0x0a
      · simp only [next, hb, if_true, beq_self_eq_true, Position.mk.injEq, and_true]
        omega
      · simp [next, hb]

end Position

namespace Token

/-- The bytes that are cut off and those that are left make up the source. -/
theorem slice_append_rest (b : UInt8) (rest : Bytes) :
    (lexeme b rest).slice ++ (lexeme b rest).rest = b :: rest := by
  unfold lexeme
  split
  · exact congrArg (b :: ·) List.takeWhile_append_dropWhile
  · split
    · exact congrArg (b :: ·) List.takeWhile_append_dropWhile
    · split <;> rfl

/-- A run of bytes ends before a byte that is none of them, whatever comes after that. -/
theorem span_append_stop {p : UInt8 → Bool} {stop : UInt8} (hstop : p stop = false)
    (bs more : Bytes) :
    (bs ++ stop :: more).takeWhile p = bs.takeWhile p ∧
      (bs ++ stop :: more).dropWhile p = bs.dropWhile p ++ stop :: more := by
  induction bs with
  | nil => simp [hstop]
  | cons b bs ih =>
      cases hb : p b with
      | true => simpa [hb] using ih
      | false => simp [hb]

/-- No token goes on over a line feed. -/
theorem lexeme_append_lineFeed (b : UInt8) (rest more : Bytes) :
    lexeme b (rest ++ 0x0a :: more) =
      { lexeme b rest with rest := (lexeme b rest).rest ++ 0x0a :: more } := by
  obtain ⟨hword, hword'⟩ := span_append_stop (show isLetter 0x0a = false by decide) rest more
  obtain ⟨hnumber, hnumber'⟩ := span_append_stop (show isDigit 0x0a = false by decide) rest more
  unfold lexeme
  split
  · simp only [hword, hword']
  · split
    · simp only [hnumber, hnumber']
    · clear hword hword' hnumber hnumber'
      cases rest with
      | nil => split <;> simp_all
      | cons c rest =>
          rw [List.cons_append]
          split
          · next heq _ _ =>
              cases heq
              rfl
          · next heq _ _ =>
              cases heq
              rfl
          · next hequal hnotEqual =>
              split <;> simp_all

namespace Cursor

/-- Puts a line feed and the bytes `more` after what is left to read. -/
def onto (more : Bytes) (c : Cursor) : Cursor := ⟨c.rest ++ 0x0a :: more, c.pos⟩

/-- The place where the source ends. -/
def finish (c : Cursor) : Position := c.pos.after c.rest

theorem skipBlanks_onto {c : Cursor} {b : UInt8} {rest : Bytes} {pos : Position}
    (h : c.skipBlanks = ⟨b :: rest, pos⟩) (more : Bytes) :
    (c.onto more).skipBlanks = ⟨b :: rest ++ 0x0a :: more, pos⟩ := by
  have hdrop : c.rest.dropWhile isBlank = b :: rest := congrArg Cursor.rest h
  have hpos : c.pos.after (c.rest.takeWhile isBlank) = pos := congrArg Cursor.pos h
  have hb : isBlank b = false := by
    have hhead := List.head?_dropWhile_not isBlank c.rest
    simpa [hdrop] using hhead
  have hsource : c.rest ++ 0x0a :: more =
      c.rest.takeWhile isBlank ++ (b :: rest ++ 0x0a :: more) := by
    rw [← hdrop, ← List.append_assoc, List.takeWhile_append_dropWhile]
  have hnext : ∀ b' ∈ (b :: rest ++ 0x0a :: more).head?, isBlank b' = false := by simpa using hb
  obtain ⟨htake, hdrop'⟩ :=
    span_append (fun b' (h : b' ∈ c.rest.takeWhile isBlank) => List.mem_takeWhile_imp h) hnext
  rw [skipBlanks, onto, hsource, htake, hdrop', hpos]

/-- Where a token is cut off, nothing that comes after a line feed makes a difference, and the
source still ends at the same place. -/
theorem next?_onto {c c' : Cursor} {t : Token} (h : c.next? = some (t, c')) (more : Bytes) :
    (c.onto more).next? = some (t, c'.onto more) ∧ c'.finish = c.finish := by
  have hall : c.skipBlanks.finish = c.finish := by
    rw [finish, finish, skipBlanks, ← Position.after_append, List.takeWhile_append_dropWhile]
  rw [next?] at h
  split at h
  · cases h
  · next b rest pos hc =>
      cases h
      have hskip := skipBlanks_onto hc more
      constructor
      · rw [next?, hskip, List.cons_append]
        simp only [lexeme_append_lineFeed, onto]
      · rw [hc] at hall
        rw [← hall, finish, finish, ← Position.after_append, slice_append_rest]

/-- Blanks in front make no difference but to the place. -/
theorem Scans.blanks {bs rest : Bytes} {pos : Position} {ts : List Token} {stop : Position}
    (hbs : ∀ b ∈ bs, isBlank b = true) (h : Scans ⟨rest, pos.after bs⟩ ts stop) :
    Scans ⟨bs ++ rest, pos⟩ ts stop := by
  induction bs generalizing pos with
  | nil => exact h
  | cons b bs ih => exact .blank (hbs b (.head _)) (ih (fun b' hb' => hbs b' (.tail _ hb')) h)

theorem isBlank_of_next?_eq_none {c : Cursor} (h : c.next? = none) :
    ∀ b ∈ c.rest, isBlank b = true := by
  rw [next?] at h
  split at h
  · next pos hc =>
      have hrest : c.rest.dropWhile isBlank = [] := congrArg Cursor.rest hc
      exact List.dropWhile_eq_nil_iff.mp hrest
  · cases h

/-- The tokens of a source and those of what comes after a line feed. -/
theorem Scans.append {c : Cursor} {ts us : List Token} {stop stop' : Position} {more : Bytes}
    (h : Scans c ts stop) (hmore : Scans ⟨more, c.finish.next 0x0a⟩ us stop') :
    Scans (c.onto more) (ts ++ us) stop' := by
  induction h with
  | done hnext =>
      refine Scans.blanks (isBlank_of_next?_eq_none hnext) ?_
      exact .blank (by decide) hmore
  | token hnext rest ih =>
      obtain ⟨hnext', hfinish⟩ := next?_onto hnext more
      refine .token hnext' (ih ?_)
      rw [hfinish]
      exact hmore

/-- The same rest of a source, `k` lines below. -/
def down (k : Nat) (c : Cursor) : Cursor := ⟨c.rest, c.pos.down k⟩

theorem skipBlanks_down (k : Nat) (c : Cursor) : (c.down k).skipBlanks = c.skipBlanks.down k :=
  congrArg (Cursor.mk _) (Position.after_down k c.pos _)

theorem next?_down (k : Nat) (c : Cursor) :
    (c.down k).next? =
      c.next?.map fun found => (found.1.moved (Position.down k), found.2.down k) := by
  rw [next?, next?, skipBlanks_down]
  rcases c.skipBlanks with ⟨rest, pos⟩
  cases rest with
  | nil => rfl
  | cons b rest => simp [down, moved, Position.after_down]

/-- Further down there are the same tokens, all of them further down. -/
theorem Scans.down {c : Cursor} {ts : List Token} {stop : Position} (h : Scans c ts stop)
    (k : Nat) : Scans (c.down k) (ts.map (moved (Position.down k))) (stop.down k) := by
  induction h with
  | @done c hnext =>
      have hdone : Scans (c.down k) [] (c.down k).skipBlanks.pos :=
        .done (by rw [next?_down, hnext, Option.map_none])
      rwa [skipBlanks_down] at hdone
  | @token c c' t ts stop hnext more ih =>
      exact .token (by rw [next?_down, hnext, Option.map_some]) ih

theorem exists_scans (c : Cursor) : ∃ ts stop, Scans c ts stop := by
  induction hn : c.rest.length using Nat.strongRecOn generalizing c with
  | _ n ih =>
      cases hnext : c.next? with
      | none => exact ⟨[], _, .done hnext⟩
      | some found =>
          obtain ⟨t, c'⟩ := found
          obtain ⟨ts, stop, hscans⟩ := ih c'.rest.length (hn ▸ length_rest_lt_of_next? hnext) c' rfl
          exact ⟨t :: ts, stop, .token hnext hscans⟩

end Cursor

/-- The tokens of two sources with a line feed between them. -/
theorem scan_append_lineFeed (a b : Bytes) :
    scan (a ++ 0x0a :: b) =
      ((scan a).1 ++ (scan b).1.map (moved (Position.down (a.count 0x0a + 1))),
        (scan b).2.down (a.count 0x0a + 1)) := by
  obtain ⟨ts, stop, ha⟩ := Cursor.exists_scans ⟨a, .start⟩
  obtain ⟨us, stop', hb⟩ := Cursor.exists_scans ⟨b, .start⟩
  have hplace : (Cursor.finish ⟨a, .start⟩).next 0x0a = Position.start.down (a.count 0x0a + 1) := by
    have hafter := Position.after_lineFeed .start a
    rw [Position.after_append] at hafter
    exact hafter
  have hbelow := hb.down (a.count 0x0a + 1)
  rw [Cursor.down, ← hplace] at hbelow
  have hjoined := ha.append hbelow
  rw [scan_of_scans ha, scan_of_scans hb]
  exact scan_of_scans hjoined

theorem items_append_lineFeed (a b : Bytes) :
    (Stream.ofSource (a ++ 0x0a :: b)).items = (Stream.ofSource a).items ++
      (Stream.ofSource b).items.map (moved (Position.down (a.count 0x0a + 1))) :=
  congrArg Prod.fst (scan_append_lineFeed a b)

/-- The tokens of two sources with a line feed between them, up to the end: those of the first one
but for its end token, which comes last there and nowhere else, and then all those of the second
one, its end token included, further down by one line and by the line feeds of the first one. -/
theorem tokens_append_lineFeed (a b : Bytes) :
    ∃ front last, tokens a = front ++ [last] ∧ last.kind = .eof ∧ (∀ t ∈ front, t.kind ≠ .eof) ∧
      tokens (a ++ 0x0a :: b) =
        front ++ (tokens b).map (moved (Position.down (1 + a.count 0x0a))) := by
  have hstop : (Stream.ofSource (a ++ 0x0a :: b)).stop =
      (Stream.ofSource b).stop.down (a.count 0x0a + 1) :=
    congrArg Prod.snd (scan_append_lineFeed a b)
  have hend : (Stream.ofSource (a ++ 0x0a :: b)).endToken =
      (Stream.ofSource b).endToken.moved (Position.down (a.count 0x0a + 1)) :=
    congrArg (Token.mk .eof []) hstop
  refine ⟨(Stream.ofSource a).items, (Stream.ofSource a).endToken, rfl, rfl,
    kind_ne_eof_ofSource a, ?_⟩
  calc tokens (a ++ 0x0a :: b)
      = (Stream.ofSource (a ++ 0x0a :: b)).items ++
          [(Stream.ofSource (a ++ 0x0a :: b)).endToken] := rfl
    _ = (Stream.ofSource a).items ++
          ((Stream.ofSource b).items ++ [(Stream.ofSource b).endToken]).map
            (moved (Position.down (a.count 0x0a + 1))) := by
        rw [items_append_lineFeed, hend, List.append_assoc, List.map_append, List.map_singleton]
    _ = (Stream.ofSource a).items ++
          (tokens b).map (moved (Position.down (1 + a.count 0x0a))) := by
        rw [Nat.add_comm 1]
        rfl

end Token

end Monkey
