import Monkey.Proofs.Token.Joining

/-!
# The tokens tile the source

A source is made up of pieces, one for each token, and of blanks after the last of them. A piece has
blanks first, which belong to no token, and then the bytes of its token. `Cut` says which bytes can
be a token, where they stand, and what kind and text the token has then: a word and a number go as
far as they can to both sides, an equality sign after another one or after an exclamation mark is
part of the same token, and any other token is one byte.

Reading on after the last token gives end tokens and nothing else.
-/

namespace Monkey.Token

/-- Between the bytes `before` and `after`, the bytes of a token with the given kind and text. -/
inductive Cut (before after : Bytes) : Bytes → Kind → Bytes → Prop where
  | word {slice : Bytes} (hne : slice ≠ []) (hslice : ∀ b ∈ slice, isLetter b = true)
      (hbefore : ∀ b ∈ before.getLast?, isLetter b = false)
      (hafter : ∀ b ∈ after.head?, isLetter b = false) :
      Cut before after slice (wordKind slice) slice
  | number {slice : Bytes} (hne : slice ≠ []) (hslice : ∀ b ∈ slice, isDigit b = true)
      (hbefore : ∀ b ∈ before.getLast?, isDigit b = false)
      (hafter : ∀ b ∈ after.head?, isDigit b = false) :
      Cut before after slice .int slice
  | equal : Cut before after [0x3d, 0x3d] .equal [0x3d, 0x3d]
  | notEqual : Cut before after [0x21, 0x3d] .notEqual [0x21, 0x3d]
  | symbol {b : UInt8} (hkind : byteKind b ≠ .illegal)
      (hafter : b = 0x3d ∨ b = 0x21 → after.head? ≠ some 0x3d) :
      Cut before after [b] (byteKind b) [b]
  | illegal {b : UInt8} (hblank : isBlank b = false) (hletter : isLetter b = false)
      (hdigit : isDigit b = false) (hkind : byteKind b = .illegal) :
      Cut before after [b] .illegal (String.utf8EncodeChar (Char.ofNat b.toNat))

/-- A token with its bytes and with the blanks before them. -/
structure Piece where
  gap : Bytes
  slice : Bytes
  token : Token

namespace Piece

/-- The bytes of pieces, one after the other. -/
def textOf (ps : List Piece) : Bytes := ps.flatMap fun p => p.gap ++ p.slice

theorem textOf_cons (p : Piece) (ps : List Piece) :
    textOf (p :: ps) = p.gap ++ p.slice ++ textOf ps := rfl

/-- The piece is one of a source where the bytes `before` come before it and `after` after it. -/
structure Fits (before after : Bytes) (p : Piece) : Prop where
  isBlank : ∀ b ∈ p.gap, isBlank b = true
  cut : Cut (before ++ p.gap) after p.slice p.token.kind p.token.literal
  pos : p.token.pos = Position.start.after (before ++ p.gap)

end Piece

/-- Neither a word nor a number goes on from `before` to `after`. -/
def Apart (before after : Bytes) : Prop :=
  ∀ b ∈ before.getLast?, ∀ c ∈ after.head?,
    ¬ (isLetter b = true ∧ isLetter c = true) ∧ ¬ (isDigit b = true ∧ isDigit c = true)

section Lexeme

variable {before : Bytes} {b : UInt8} {rest : Bytes}

theorem head?_dropWhile_eq_false (p : UInt8 → Bool) (bs : Bytes) :
    ∀ c ∈ (bs.dropWhile p).head?, p c = false := by
  intro c hc
  have hhead := List.head?_dropWhile_not p bs
  rw [Option.mem_def.mp hc] at hhead
  simpa using hhead

/-- All that can be cut off. -/
theorem lexeme_cases (b : UInt8) (rest : Bytes) :
    (isLetter b = true ∧ lexeme b rest = ⟨wordKind (b :: rest.takeWhile isLetter),
        b :: rest.takeWhile isLetter, rest.dropWhile isLetter⟩) ∨
      (isDigit b = true ∧ lexeme b rest =
        ⟨.int, b :: rest.takeWhile isDigit, rest.dropWhile isDigit⟩) ∨
      (∃ more, b :: rest = 0x3d :: 0x3d :: more ∧ lexeme b rest = ⟨.equal, [0x3d, 0x3d], more⟩) ∨
      (∃ more, b :: rest = 0x21 :: 0x3d :: more ∧ lexeme b rest = ⟨.notEqual, [0x21, 0x3d], more⟩) ∨
      isLetter b = false ∧ isDigit b = false ∧ (b = 0x3d ∨ b = 0x21 → rest.head? ≠ some 0x3d) ∧
        lexeme b rest = ⟨byteKind b, [b], rest⟩ := by
  unfold lexeme
  split
  next hletter => exact .inl ⟨hletter, rfl⟩
  next hletter =>
    split
    next hdigit => exact .inr (.inl ⟨hdigit, rfl⟩)
    next hdigit =>
      split
      next more => exact .inr (.inr (.inl ⟨more, rfl, rfl⟩))
      next more => exact .inr (.inr (.inr (.inl ⟨more, rfl, rfl⟩)))
      next hequal hnotEqual =>
        refine .inr (.inr (.inr (.inr ⟨by simpa using hletter, by simpa using hdigit, ?_, rfl⟩)))
        rintro hb hhead
        obtain ⟨more, rfl⟩ := List.head?_eq_some_iff.mp hhead
        rcases hb with rfl | rfl
        · exact hequal more rfl rfl
        · exact hnotEqual more rfl rfl

/-- What is cut off is the bytes of a token. -/
theorem cut_lexeme (hb : isBlank b = false) (h : Apart before (b :: rest)) :
    Cut before (lexeme b rest).rest (lexeme b rest).slice (lexeme b rest).kind
      (keptText (lexeme b rest).kind (lexeme b rest).slice) := by
  rcases lexeme_cases b rest with ⟨hletter, hlex⟩ | ⟨hdigit, hlex⟩ | ⟨more, -, hlex⟩ |
    ⟨more, -, hlex⟩ | ⟨hletter, hdigit, hnext, hlex⟩
  · rw [hlex, keptText_of_ne (wordKind_ne_illegal _)]
    refine .word (by simp) ?_ (fun c hc => ?_) (head?_dropWhile_eq_false isLetter rest)
    · exact List.forall_mem_cons.mpr ⟨hletter, fun c hc => List.mem_takeWhile_imp hc⟩
    · have hapart := (h c hc b rfl).1
      simpa [hletter] using hapart
  · rw [hlex]
    refine .number (by simp) ?_ (fun c hc => ?_) (head?_dropWhile_eq_false isDigit rest)
    · exact List.forall_mem_cons.mpr ⟨hdigit, fun c hc => List.mem_takeWhile_imp hc⟩
    · have hapart := (h c hc b rfl).2
      simpa [hdigit] using hapart
  · rw [hlex]
    exact .equal
  · rw [hlex]
    exact .notEqual
  · rw [hlex]
    by_cases hkind : byteKind b = .illegal
    · simp only [hkind, keptText, List.flatMap_cons, List.flatMap_nil, List.append_nil]
      exact .illegal hb hletter hdigit hkind
    · rw [keptText_of_ne hkind]
      exact .symbol hkind hnext

theorem mem_of_getLast?_append {slice : Bytes} {c : UInt8} (hne : slice ≠ [])
    (hc : c ∈ (before ++ slice).getLast?) : c ∈ slice := by
  rw [List.getLast?_append, List.getLast?_eq_some_getLast hne] at hc
  cases hc
  exact List.getLast_mem hne

/-- After what is cut off there is nothing that belongs to it. -/
theorem apart_lexeme (before : Bytes) (b : UInt8) (rest : Bytes) :
    Apart (before ++ (lexeme b rest).slice) (lexeme b rest).rest := by
  intro c hc d hd
  rcases lexeme_cases b rest with ⟨hletter, hlex⟩ | ⟨hdigit, hlex⟩ | ⟨more, -, hlex⟩ |
    ⟨more, -, hlex⟩ | ⟨hletter, hdigit, -, hlex⟩
  all_goals
    rw [hlex] at hc hd
    have hmem := mem_of_getLast?_append (List.cons_ne_nil _ _) hc
  · have hc' : isLetter c = true := by
      rcases List.mem_cons.mp hmem with rfl | hmem
      · exact hletter
      · exact List.mem_takeWhile_imp hmem
    have hd' := head?_dropWhile_eq_false isLetter rest d hd
    have hdigit : ¬ isDigit c = true := fun h => by simp [isLetter_of_isDigit h] at hc'
    simp [hd', hdigit]
  · have hc' : isDigit c = true := by
      rcases List.mem_cons.mp hmem with rfl | hmem
      · exact hdigit
      · exact List.mem_takeWhile_imp hmem
    have hd' := head?_dropWhile_eq_false isDigit rest d hd
    simp [hd', isLetter_of_isDigit hc']
  · simp only [List.mem_cons, List.not_mem_nil, or_false] at hmem
    rcases hmem with rfl | rfl <;> simp +decide
  · simp only [List.mem_cons, List.not_mem_nil, or_false] at hmem
    rcases hmem with rfl | rfl <;> simp +decide
  · obtain rfl := List.mem_singleton.mp hmem
    simp [hletter, hdigit]

end Lexeme

/-- Blanks keep everything apart. -/
theorem apart_append_blanks {before gap rest : Bytes} (h : Apart before (gap ++ rest))
    (hgap : ∀ b ∈ gap, isBlank b = true) : Apart (before ++ gap) rest := by
  by_cases hne : gap = []
  · subst hne
    simpa using h
  · intro c hc d _
    have hblank := hgap c (mem_of_getLast?_append hne hc)
    constructor
    · rintro ⟨hc', -⟩
      simp [isBlank_eq_false (.inl hc')] at hblank
    · rintro ⟨hc', -⟩
      simp [isBlank_eq_false (.inr hc')] at hblank

/-- A token that is read takes a piece off the source. -/
theorem Cursor.exists_piece {c c' : Cursor} {t : Token} (h : c.next? = some (t, c'))
    {before : Bytes} (hpos : c.pos = Position.start.after before) (hapart : Apart before c.rest) :
    ∃ p : Piece, p.token = t ∧ c.rest = p.gap ++ p.slice ++ c'.rest ∧ p.Fits before c'.rest ∧
      c'.pos = Position.start.after (before ++ (p.gap ++ p.slice)) ∧
      Apart (before ++ (p.gap ++ p.slice)) c'.rest := by
  rw [next?] at h
  split at h
  · cases h
  · next b rest pos hc =>
      cases h
      have hrest : c.rest.dropWhile isBlank = b :: rest := congrArg Cursor.rest hc
      have hstart : c.pos.after (c.rest.takeWhile isBlank) = pos := congrArg Cursor.pos hc
      rw [hpos, ← Position.after_append] at hstart
      have hgap : ∀ b' ∈ c.rest.takeWhile isBlank, isBlank b' = true :=
        fun b' hb' => List.mem_takeWhile_imp hb'
      have hsource : c.rest = c.rest.takeWhile isBlank ++ (b :: rest) := by
        rw [← hrest, List.takeWhile_append_dropWhile]
      have hb : isBlank b = false := head?_dropWhile_eq_false isBlank c.rest b (by rw [hrest]; rfl)
      have hapart' : Apart (before ++ c.rest.takeWhile isBlank) (b :: rest) :=
        apart_append_blanks (hsource ▸ hapart) hgap
      refine ⟨⟨c.rest.takeWhile isBlank, (lexeme b rest).slice, _⟩, rfl, ?_,
        ⟨hgap, cut_lexeme hb hapart', hstart.symm⟩, ?_, ?_⟩
      · rw [List.append_assoc, slice_append_rest]
        exact hsource
      · rw [← hstart, ← Position.after_append, List.append_assoc]
      · rw [← List.append_assoc]
        exact apart_lexeme _ b rest

/-- From a cursor on, a source is made up of one piece for each token, and of blanks at its end. -/
theorem Cursor.Scans.exists_pieces {c : Cursor} {ts : List Token} {stop : Position}
    (h : c.Scans ts stop) {before : Bytes} (hpos : c.pos = Position.start.after before)
    (hapart : Apart before c.rest) :
    ∃ pieces tail, c.rest = Piece.textOf pieces ++ tail ∧ ts = pieces.map Piece.token ∧
      (∀ b ∈ tail, isBlank b = true) ∧
      ∀ us p vs, pieces = us ++ p :: vs →
        p.Fits (before ++ Piece.textOf us) (Piece.textOf vs ++ tail) := by
  -- `before` grows by a piece with each token, and what is left stays apart from it
  induction h generalizing before with
  | @done c hnext =>
      refine ⟨[], c.rest, rfl, rfl, isBlank_of_next?_eq_none hnext, fun us p vs heq => ?_⟩
      simp at heq
  | token hnext more ih =>
      obtain ⟨p, rfl, hrest, hfits, hpos', hapart'⟩ := exists_piece hnext hpos hapart
      obtain ⟨pieces, tail, hrest', rfl, htail, hall⟩ := ih hpos' hapart'
      refine ⟨p :: pieces, tail, ?_, rfl, htail, fun us q vs heq => ?_⟩
      · rw [hrest, hrest', Piece.textOf_cons, List.append_assoc _ _ tail]
      · cases us with
        | nil =>
            cases heq
            rw [hrest'] at hfits
            simpa [Piece.textOf] using hfits
        | cons u us =>
            cases heq
            have hfits' := hall us q vs rfl
            rwa [List.append_assoc, ← Piece.textOf_cons] at hfits'

/-- The next `n` tokens, one after the other. -/
def Cursor.reads : Nat → Cursor → List Token
  | 0, _ => []
  | n + 1, c => c.next.1 :: reads n c.next.2

namespace Stream

/-- Past the end of a source a stream goes where the cursor goes. -/
theorem take_of_ended (stop : Position) (n : Nat) :
    (take n ⟨[], stop, fun pos => (Cursor.next ⟨[], pos⟩).2.pos⟩).1 =
      Cursor.reads n ⟨[], stop⟩ := by
  induction n generalizing stop with
  | zero => rfl
  | succ n ih => exact congrArg (⟨.eof, [], stop⟩ :: ·) (ih _)

/-- What a cursor reads is what a stream of its tokens yields. -/
theorem take_of_scans {c : Cursor} {ts : List Token} {stop : Position} (h : c.Scans ts stop)
    (n : Nat) :
    (take n ⟨ts, stop, fun pos => (Cursor.next ⟨[], pos⟩).2.pos⟩).1 = Cursor.reads n c := by
  induction h generalizing n with
  | @done c hnext =>
      cases n with
      | zero => rfl
      | succ n =>
          rw [Cursor.reads, Cursor.next, hnext]
          exact congrArg (⟨.eof, [], c.skipBlanks.pos⟩ :: ·) (take_of_ended _ n)
  | @token c c' t ts stop hnext more ih =>
      cases n with
      | zero => rfl
      | succ n =>
          rw [Cursor.reads, Cursor.next, hnext]
          exact congrArg (t :: ·) (ih n)

/-- A stream yields the tokens of a source as they are read from it, past its end too. -/
theorem take_ofSource (source : Bytes) (n : Nat) :
    ((ofSource source).take n).1 = Cursor.reads n ⟨source, .start⟩ := by
  obtain ⟨ts, stop, hscans⟩ := Cursor.exists_scans ⟨source, .start⟩
  rw [ofSource, scan_of_scans hscans]
  exact take_of_scans hscans n

/-- A stream without items gives end tokens. -/
theorem take_of_items_eq_nil {s : Stream} (h : s.items = []) (n : Nat) :
    (s.take n).1.length = n ∧ ∀ t ∈ (s.take n).1, t.kind = .eof ∧ t.literal = [] := by
  induction n generalizing s with
  | zero => exact ⟨rfl, fun t ht => absurd ht List.not_mem_nil⟩
  | succ n ih =>
      have hcurrent : s.current = s.endToken := by simp [current, h]
      obtain ⟨hlength, hall⟩ := @ih s.advance (by simp [advance, h])
      rw [take]
      refine ⟨by simp [hlength], List.forall_mem_cons.mpr ⟨?_, hall⟩⟩
      rw [hcurrent]
      exact ⟨rfl, rfl⟩

/-- Reading token by token gives the same as draining, and then end tokens. -/
theorem take_drain (s : Stream) (n : Nat) :
    (s.take (s.drain.1.length + n)).1 = s.drain.1 ++ (s.drain.2.take n).1 := by
  obtain ⟨items, stop, onward⟩ := s
  induction items with
  | nil =>
      have hlength : (drain ⟨[], stop, onward⟩).1.length + n = n + 1 := Nat.add_comm 1 n
      rw [hlength, take]
      rfl
  | cons t items ih =>
      have hlength : (drain ⟨t :: items, stop, onward⟩).1.length + n =
          (drain ⟨items, stop, onward⟩).1.length + n + 1 := by
        simp only [drain, List.length_append, List.length_cons, List.length_nil]
        omega
      rw [hlength, take]
      exact congrArg (t :: ·) ih

end Stream

theorem Cut.ne_nil {before after slice literal : Bytes} {kind : Kind}
    (h : Cut before after slice kind literal) : slice ≠ [] := by
  cases h with
  | word hne => exact hne
  | number hne => exact hne
  | _ => exact List.cons_ne_nil _ _

/-- The tokens of a source are cut from it one after the other by longest match, and all the bytes
between them are blanks. The end token comes once, at the end, and whoever reads on gets more of
them, however often the cursor is asked for the next token. -/
theorem tokens_tile (source : Bytes) :
    (∃ pieces tail, source = Piece.textOf pieces ++ tail ∧
        (∀ b ∈ tail, isBlank b = true) ∧
        tokens source = pieces.map Piece.token ++ [(Stream.ofSource source).endToken] ∧
        ∀ us p vs, pieces = us ++ p :: vs →
          (∀ b ∈ p.gap, isBlank b = true) ∧ p.slice ≠ [] ∧
            Cut (Piece.textOf us ++ p.gap) (Piece.textOf vs ++ tail) p.slice p.token.kind
              p.token.literal) ∧
      (tokens source).countP (fun t => t.kind = .eof) = 1 ∧
      (∀ n, ((Stream.ofSource source).take n).1 = Cursor.reads n ⟨source, .start⟩) ∧
      ∀ n, ∃ more, ((Stream.ofSource source).take ((tokens source).length + n)).1 =
          tokens source ++ more ∧
        more.length = n ∧ ∀ t ∈ more, t.kind = .eof ∧ t.literal = [] := by
  have hend : (Stream.ofSource source).items.countP (fun t => t.kind = .eof) = 0 := by
    simpa [List.countP_eq_zero] using kind_ne_eof_ofSource source
  refine ⟨?_, ?_, Stream.take_ofSource source, fun n => ?_⟩
  · obtain ⟨ts, stop, hscans⟩ := Cursor.exists_scans ⟨source, .start⟩
    have hitems : (Stream.ofSource source).items = ts := congrArg Prod.fst (scan_of_scans hscans)
    have hapart : Apart [] source := fun b hb => absurd hb (by simp)
    obtain ⟨pieces, tail, hsource, rfl, htail, hall⟩ := hscans.exists_pieces rfl hapart
    refine ⟨pieces, tail, hsource, htail, ?_, fun us p vs heq => ?_⟩
    · rw [tokens, Stream.drain, hitems]
    · obtain ⟨hgap, hcut, -⟩ := hall us p vs heq
      exact ⟨hgap, hcut.ne_nil, hcut⟩
  · rw [tokens, Stream.drain, List.countP_append, hend]
    rfl
  · refine ⟨_, Stream.take_drain _ n, ?_⟩
    exact Stream.take_of_items_eq_nil rfl n

end Monkey.Token
