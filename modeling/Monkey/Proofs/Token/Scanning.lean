import Mathlib.Tactic.Common
import Monkey.Proofs.Tree.Relabel
import Monkey.Token.Stream

/-!
# Scanning a source piece by piece

`Cursor.Scans` says token by token what is read from a place in a source, without a bound on the
number of tokens, and `scan` follows it. `Spells text ts` forgets the places: wherever the text
stands, its tokens are `ts`. It is put together from the front: a word, a number or a symbol before
a text that is already known, as long as the first byte of that text does not go on with it.
-/

namespace Monkey.Token

theorem length_rest_lexeme_le (b : UInt8) (rest : Bytes) :
    (lexeme b rest).rest.length ≤ rest.length := by
  unfold lexeme
  split
  · exact (List.dropWhile_sublist _).length_le
  · split
    · exact (List.dropWhile_sublist _).length_le
    · split <;> simp

namespace Cursor

/-- From the cursor on the tokens `ts` are read, and then the source ends at `stop`. -/
inductive Scans : Cursor → List Token → Position → Prop where
  | done {c : Cursor} (h : c.next? = none) : Scans c [] c.skipBlanks.pos
  | token {c c' : Cursor} {t : Token} {ts : List Token} {stop : Position}
      (h : c.next? = some (t, c')) (more : Scans c' ts stop) : Scans c (t :: ts) stop

theorem length_rest_skipBlanks_le (c : Cursor) : c.skipBlanks.rest.length ≤ c.rest.length :=
  (List.dropWhile_sublist _).length_le

/-- A token takes up at least one byte. -/
theorem length_rest_lt_of_next? {c c' : Cursor} {t : Token} (h : c.next? = some (t, c')) :
    c'.rest.length < c.rest.length := by
  have hskip := c.length_rest_skipBlanks_le
  rw [next?] at h
  split at h
  · cases h
  · next b rest pos hc =>
      cases h
      rw [hc] at hskip
      exact Nat.lt_of_le_of_lt (length_rest_lexeme_le b rest) hskip

theorem Scans.scanOnto_eq {c : Cursor} {ts : List Token} {stop : Position} (h : Scans c ts stop)
    (done : List Token) {fuel : Nat} (hfuel : c.rest.length ≤ fuel) :
    scanOnto done fuel c = (done.reverse ++ ts, stop) := by
  induction h generalizing done fuel with
  | done h =>
      cases fuel with
      | zero => simp [scanOnto]
      | succ fuel => simp [scanOnto, h]
  | token h more ih =>
      have hlt := length_rest_lt_of_next? h
      cases fuel with
      | zero => omega
      | succ fuel =>
          have hfuel' : _ ≤ fuel := Nat.le_of_lt_succ (Nat.lt_of_lt_of_le hlt hfuel)
          simp [scanOnto, h, ih _ hfuel']

/-- A blank in front makes no difference but to the place. -/
theorem Scans.blank {b : UInt8} {rest : Bytes} {pos : Position} {ts : List Token}
    {stop : Position} (hb : isBlank b = true) (h : Scans ⟨rest, pos.next b⟩ ts stop) :
    Scans ⟨b :: rest, pos⟩ ts stop := by
  have hskip : skipBlanks ⟨b :: rest, pos⟩ = skipBlanks ⟨rest, pos.next b⟩ := by
    simp [skipBlanks, hb]
  have hnext : next? ⟨b :: rest, pos⟩ = next? ⟨rest, pos.next b⟩ := by
    rw [next?, next?, hskip]
  cases h with
  | done h =>
      rw [← hskip]
      exact .done (hnext.trans h)
  | token h more => exact .token (hnext.trans h) more

end Cursor

theorem scan_of_scans {source : Bytes} {ts : List Token} {stop : Position}
    (h : Cursor.Scans ⟨source, .start⟩ ts stop) : scan source = (ts, stop) :=
  h.scanOnto_eq [] (Nat.le_refl _)

theorem keptText_of_ne {kind : Kind} (h : kind ≠ .illegal) (slice : Bytes) :
    keptText kind slice = slice := by
  rw [keptText]
  exact h

/-- Wherever the text stands, it is cut into the tokens `us`, but for their places. -/
def Spells (text : Bytes) (us : List Token) : Prop :=
  ∀ pos, ∃ ts stop, Cursor.Scans ⟨text, pos⟩ ts stop ∧ ts.map unplaced = us

theorem Spells.map_items {source : Bytes} {us : List Token} (h : Spells source us) :
    (Stream.ofSource source).items.map unplaced = us := by
  obtain ⟨ts, stop, hscans, hts⟩ := h .start
  rw [Stream.ofSource, scan_of_scans hscans]
  exact hts

section Spells

variable {rest : Bytes} {us : List Token}

theorem Spells.nil : Spells [] [] := fun _ => ⟨[], _, .done rfl, rfl⟩

theorem Spells.blank {b : UInt8} (hb : isBlank b = true) (h : Spells rest us) :
    Spells (b :: rest) us := by
  intro pos
  obtain ⟨ts, stop, hscans, hts⟩ := h (pos.next b)
  exact ⟨ts, stop, hscans.blank hb, hts⟩

theorem Spells.cons {b : UInt8} {text : Bytes} {kind : Kind} {slice : Bytes}
    (hb : isBlank b = false) (hlex : lexeme b text = ⟨kind, slice, rest⟩)
    (hkind : kind ≠ .illegal) (h : Spells rest us) :
    Spells (b :: text) (⟨kind, slice, .start⟩ :: us) := by
  intro pos
  obtain ⟨ts, stop, hscans, hts⟩ := h (pos.after slice)
  have hkept := keptText_of_ne hkind slice
  have hnext : Cursor.next? ⟨b :: text, pos⟩ =
      some (⟨kind, slice, pos⟩, ⟨rest, pos.after slice⟩) := by
    simp [Cursor.next?, Cursor.skipBlanks, hb, hlex, hkept]
  refine ⟨⟨kind, slice, pos⟩ :: ts, stop, .token hnext hscans, ?_⟩
  rw [List.map_cons, hts]
  rfl

end Spells

section Bytes

variable {b : UInt8}

theorem isBlank_eq_false (h : isLetter b = true ∨ isDigit b = true) : isBlank b = false := by
  by_contra hb
  simp only [isBlank, Bool.not_eq_false, Bool.or_eq_true, beq_iff_eq] at hb
  rcases hb with ((rfl | rfl) | rfl) | rfl <;> exact absurd h (by decide)

theorem isLetter_of_isDigit (h : isDigit b = true) : isLetter b = false := by
  simp only [isDigit, Text.Decimal.isDigit, isLetter, Bool.and_eq_true, decide_eq_true_eq,
    UInt8.le_iff_toNat_le, UInt8.reduceToNat, Bool.or_eq_false_iff, Bool.and_eq_false_iff,
    decide_eq_false_iff_not, beq_eq_false_iff_ne, ne_eq, ← UInt8.toNat_inj] at h ⊢
  omega

end Bytes

theorem wordKind_ne_illegal (word : Bytes) : wordKind word ≠ .illegal := by
  have hkeywords : ∀ entry ∈ keywords, entry.2 ≠ .illegal := by decide
  unfold wordKind
  split
  · next h => exact hkeywords _ (List.mem_of_find?_eq_some h)
  · simp

/-- A run of bytes is cut off as a whole, if the byte after it is none of them. -/
theorem span_append {p : UInt8 → Bool} {run rest : Bytes} (hrun : ∀ b ∈ run, p b = true)
    (hrest : ∀ b ∈ rest.head?, p b = false) :
    (run ++ rest).takeWhile p = run ∧ (run ++ rest).dropWhile p = rest := by
  rw [List.takeWhile_append_of_pos hrun, List.dropWhile_append_of_pos hrun]
  cases rest with
  | nil => simp
  | cons b rest =>
      have hb := hrest b rfl
      simp [hb]

section Spells

variable {rest : Bytes} {us : List Token}

theorem Spells.word {word : Bytes} (hne : word ≠ []) (hword : ∀ b ∈ word, isLetter b = true)
    (hrest : ∀ b ∈ rest.head?, isLetter b = false) (h : Spells rest us) :
    Spells (word ++ rest) (⟨wordKind word, word, .start⟩ :: us) := by
  obtain ⟨b, run, rfl⟩ := List.exists_cons_of_ne_nil hne
  have hb : isLetter b = true := hword b (.head _)
  obtain ⟨htake, hdrop⟩ := span_append (fun c hc => hword c (.tail _ hc)) hrest
  rw [List.cons_append]
  refine .cons (isBlank_eq_false (.inl hb)) ?_ (wordKind_ne_illegal _) h
  simp only [lexeme, hb, if_true, htake, hdrop]

theorem Spells.number {digits : Bytes} (hne : digits ≠ [])
    (hdigits : ∀ b ∈ digits, isDigit b = true) (hrest : ∀ b ∈ rest.head?, isDigit b = false)
    (h : Spells rest us) : Spells (digits ++ rest) (⟨.int, digits, .start⟩ :: us) := by
  obtain ⟨b, run, rfl⟩ := List.exists_cons_of_ne_nil hne
  have hb : isDigit b = true := hdigits b (.head _)
  obtain ⟨htake, hdrop⟩ := span_append (fun c hc => hdigits c (.tail _ hc)) hrest
  rw [List.cons_append]
  refine .cons (isBlank_eq_false (.inr hb)) ?_ (by simp) h
  simp only [lexeme, isLetter_of_isDigit hb, hb, if_true, htake, hdrop, Bool.false_eq_true,
    if_false]

/-- A byte that is a token by itself, if no equality sign comes after it. -/
theorem Spells.byte {b : UInt8} (hkind : byteKind b ≠ .illegal)
    (hrest : ∀ c ∈ rest.head?, c ≠ 0x3d) (h : Spells rest us) :
    Spells (b :: rest) (⟨byteKind b, [b], .start⟩ :: us) := by
  have hb : isBlank b = false ∧ isLetter b = false ∧ isDigit b = false := by
    unfold byteKind at hkind
    split at hkind <;> first | decide | exact absurd rfl hkind
  refine .cons hb.1 ?_ hkind h
  simp only [lexeme, hb, Bool.false_eq_true, if_false]
  split
  · next rest' => exact absurd rfl (hrest 0x3d rfl)
  · next rest' => exact absurd rfl (hrest 0x3d rfl)
  · rfl

theorem Spells.space (h : Spells rest us) : Spells (utf8 " " ++ rest) us := .blank rfl h

/-- The kinds that are spelled with symbols. -/
def symbols : List Kind :=
  [.assign, .plus, .minus, .bang, .asterisk, .slash, .less, .greater, .equal, .notEqual, .comma,
   .semicolon, .lparen, .rparen, .lbrace, .rbrace]

/-- A symbol, if no equality sign comes after it. -/
theorem Spells.symbol (kind : Kind) (hkind : kind ∈ symbols)
    (hrest : ∀ c ∈ rest.head?, c ≠ 0x3d) (h : Spells rest us) :
    Spells (kind.text ++ rest) (⟨kind, kind.text, .start⟩ :: us) := by
  simp only [symbols, List.mem_cons, List.not_mem_nil, or_false] at hkind
  rcases hkind with rfl | rfl | rfl | rfl | rfl | rfl | rfl | rfl | rfl | rfl | rfl | rfl | rfl |
    rfl | rfl | rfl <;>
    first
    | exact .byte (by decide) hrest h
    | exact .cons rfl rfl (by simp) h

end Spells

section Symbols

/-- A symbol keeps its own text. -/
def SymbolText (t : Token) : Prop := t.kind ∈ symbols → t.literal = t.kind.text

theorem wordKind_not_mem_symbols (word : Bytes) : wordKind word ∉ symbols := by
  have hkeywords : ∀ entry ∈ keywords, entry.2 ∉ symbols := by decide
  unfold wordKind
  split
  · next h => exact hkeywords _ (List.mem_of_find?_eq_some h)
  · decide

theorem byteKind_text {b : UInt8} (h : byteKind b ∈ symbols) : [b] = (byteKind b).text := by
  unfold byteKind at h ⊢
  split at h <;> first | rfl | exact absurd h (by decide)

theorem lexeme_text (b : UInt8) (rest : Bytes) :
    (lexeme b rest).kind ∈ symbols → (lexeme b rest).slice = (lexeme b rest).kind.text := by
  unfold lexeme
  split
  · exact fun h => absurd h (wordKind_not_mem_symbols _)
  · split
    · exact fun h => absurd h (show Kind.int ∉ symbols by decide)
    · split
      · exact fun _ => (by decide : [0x3d, 0x3d] = Kind.equal.text)
      · exact fun _ => (by decide : [0x21, 0x3d] = Kind.notEqual.text)
      · exact byteKind_text

theorem Cursor.symbolText_of_next? {c c' : Cursor} {t : Token} (h : c.next? = some (t, c')) :
    t.SymbolText := by
  rw [next?] at h
  split at h
  · cases h
  · next b rest pos hc =>
      cases h
      intro hkind
      have hne : (lexeme b rest).kind ≠ .illegal := fun h => absurd hkind (by simp [h, symbols])
      exact (keptText_of_ne hne _).trans (lexeme_text b rest hkind)

/-- What holds of every token that is cut off holds of all tokens of a source. -/
theorem Cursor.forall_mem_scanOnto {P : Token → Prop}
    (hnext : ∀ c t c', next? c = some (t, c') → P t) (fuel : Nat) {done : List Token} {c : Cursor}
    (hdone : ∀ t ∈ done, P t) : ∀ t ∈ (scanOnto done fuel c).1, P t := by
  induction fuel generalizing done c with
  | zero => simpa [scanOnto] using hdone
  | succ fuel ih =>
      unfold scanOnto
      split
      · simpa using hdone
      · next t c' h => exact ih (List.forall_mem_cons.mpr ⟨hnext c t c' h, hdone⟩)

theorem symbolText_ofSource (source : Bytes) :
    ∀ t ∈ (Stream.ofSource source).items, t.SymbolText :=
  Cursor.forall_mem_scanOnto (fun _ _ _ => Cursor.symbolText_of_next?) source.length (by simp)

end Symbols

theorem wordKind_ne_eof (word : Bytes) : wordKind word ≠ .eof := by
  have hkeywords : ∀ entry ∈ keywords, entry.2 ≠ .eof := by decide
  unfold wordKind
  split
  · next h => exact hkeywords _ (List.mem_of_find?_eq_some h)
  · simp

theorem lexeme_kind_ne_eof (b : UInt8) (rest : Bytes) : (lexeme b rest).kind ≠ .eof := by
  unfold lexeme
  split
  · exact wordKind_ne_eof _
  · split
    · simp
    · split
      · simp
      · simp
      · unfold byteKind
        split <;> simp

/-- No end token is cut from a source. -/
theorem kind_ne_eof_ofSource (source : Bytes) :
    ∀ t ∈ (Stream.ofSource source).items, t.kind ≠ .eof := by
  refine Cursor.forall_mem_scanOnto (fun c t c' h => ?_) source.length (by simp)
  rw [Cursor.next?] at h
  split at h
  · cases h
  · cases h
    exact lexeme_kind_ne_eof _ _

end Monkey.Token
