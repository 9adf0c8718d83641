import Monkey.Proofs.Session.Depth
import Monkey.Proofs.Token.Tiling

/-!
# Lines joined to one input

A console puts the lines of an input together and then looks at the whole. What it sees is already
in the lines: the depth of the whole is the sum of their depths, because no token goes on over the
end of a line, and the whole is a command if the first line is one, unless that line is blank.
-/

namespace Monkey

namespace Text.Rune

theorem le_of_tail? {b : UInt8} {t : Nat} (h : tail? b = some t) : 0x80 ≤ b := by
  unfold tail? at h
  split at h
  · next hrange => exact of_decide_eq_true (Bool.and_eq_true_iff.mp hrange).1
  · cases h

theorem le_of_pair? {b₀ b₁ : UInt8} {c : Char} (h : pair? b₀ b₁ = some c) : 0x80 ≤ b₁ := by
  obtain ⟨t₁, ht₁, -⟩ := Option.bind_eq_some_iff.mp h
  exact le_of_tail? ht₁

theorem le_of_triple? {b₀ b₁ b₂ : UInt8} {c : Char} (h : triple? b₀ b₁ b₂ = some c) :
    0x80 ≤ b₁ ∧ 0x80 ≤ b₂ := by
  obtain ⟨t₁, ht₁, h⟩ := Option.bind_eq_some_iff.mp h
  obtain ⟨t₂, ht₂, -⟩ := Option.bind_eq_some_iff.mp h
  exact ⟨le_of_tail? ht₁, le_of_tail? ht₂⟩

theorem le_of_quad? {b₀ b₁ b₂ b₃ : UInt8} {c : Char} (h : quad? b₀ b₁ b₂ b₃ = some c) :
    0x80 ≤ b₁ ∧ 0x80 ≤ b₂ ∧ 0x80 ≤ b₃ := by
  obtain ⟨t₁, ht₁, h⟩ := Option.bind_eq_some_iff.mp h
  obtain ⟨t₂, ht₂, h⟩ := Option.bind_eq_some_iff.mp h
  obtain ⟨t₃, ht₃, -⟩ := Option.bind_eq_some_iff.mp h
  exact ⟨le_of_tail? ht₁, le_of_tail? ht₂, le_of_tail? ht₃⟩

/-- The further bytes of a rune are no bytes of small characters. -/
theorem le_of_mem_take_first {b c : UInt8} {rest : Bytes} (hc : c ∈ rest.take (first b rest).2) :
    0x80 ≤ c := by
  unfold first at hc
  split at hc
  · cases hc
  · split at hc
    · cases hc
    · next b₁ r₁ =>
        split at hc
        · next hpair =>
            obtain rfl : c = b₁ := by simpa using hc
            exact le_of_pair? hpair
        · split at hc
          · cases hc
          · next b₂ r₂ =>
              split at hc
              · next htriple =>
                  obtain ⟨h₁, h₂⟩ := le_of_triple? htriple
                  have hmem : c = b₁ ∨ c = b₂ := by simpa using hc
                  rcases hmem with rfl | rfl <;> assumption
              · split at hc
                · cases hc
                · next b₃ r₃ =>
                    split at hc
                    · next hquad =>
                        obtain ⟨h₁, h₂, h₃⟩ := le_of_quad? hquad
                        have hmem : c = b₁ ∨ c = b₂ ∨ c = b₃ := by simpa using hc
                        rcases hmem with rfl | rfl | rfl <;> assumption
                    · cases hc

section Small

variable {b₀ b₁ b₂ b₃ : UInt8}

theorem pair?_eq_none (h : b₁ < 0x80) : pair? b₀ b₁ = none :=
  Option.eq_none_iff_forall_ne_some.mpr fun _ hpair => UInt8.not_le.mpr h (le_of_pair? hpair)

theorem triple?_eq_none (h : b₁ < 0x80 ∨ b₂ < 0x80) : triple? b₀ b₁ b₂ = none := by
  refine Option.eq_none_iff_forall_ne_some.mpr fun _ htriple => ?_
  obtain ⟨h₁, h₂⟩ := le_of_triple? htriple
  rcases h with h | h
  · exact UInt8.not_le.mpr h h₁
  · exact UInt8.not_le.mpr h h₂

theorem quad?_eq_none (h : b₁ < 0x80 ∨ b₂ < 0x80 ∨ b₃ < 0x80) : quad? b₀ b₁ b₂ b₃ = none := by
  refine Option.eq_none_iff_forall_ne_some.mpr fun _ hquad => ?_
  obtain ⟨h₁, h₂, h₃⟩ := le_of_quad? hquad
  rcases h with h | h | h
  · exact UInt8.not_le.mpr h h₁
  · exact UInt8.not_le.mpr h h₂
  · exact UInt8.not_le.mpr h h₃

end Small

/-- No rune goes on over a line feed. -/
theorem first_append_lineFeed (b : UInt8) (rest more : Bytes) :
    first b (rest ++ 0x0a :: more) = first b rest := by
  have hsmall : (0x0a : UInt8) < 0x80 := by decide
  unfold first
  split
  · rfl
  · rcases rest with _ | ⟨b₁, _ | ⟨b₂, _ | ⟨b₃, rest⟩⟩⟩
    · rcases more with _ | ⟨c, _ | ⟨d, more⟩⟩ <;>
        simp [pair?_eq_none hsmall, triple?_eq_none (.inl hsmall), quad?_eq_none (.inl hsmall)]
    · rcases more with _ | ⟨c, more⟩ <;>
        simp [triple?_eq_none (.inr hsmall), quad?_eq_none (.inr (.inl hsmall))]
    · simp [quad?_eq_none (.inr (.inr hsmall))]
    · rfl

end Text.Rune

namespace Session

open Grammar

section Blanks

/-- A text of blanks holds only bytes that are blanks between tokens or foreign. -/
theorem isBlank_or_isForeign {skip : Nat} {text : Bytes} (h : Text.trimStartFrom skip text = [])
    (hskip : ∀ c ∈ text.take skip, 0x80 ≤ c) :
    ∀ b ∈ text, Token.isBlank b = true ∨ isForeign b = true := by
  induction text generalizing skip with
  | nil => exact List.forall_mem_nil _
  | cons b rest ih =>
      cases skip with
      | succ skip =>
          obtain ⟨hb, hrest⟩ := List.forall_mem_cons.mp hskip
          exact List.forall_mem_cons.mpr ⟨.inr (isForeign_of_le hb), ih h hrest⟩
      | zero =>
          rw [Text.trimStartFrom] at h
          dsimp only at h
          split at h
          · next hblank =>
              refine List.forall_mem_cons.mpr ⟨?_, ih h fun c => Text.Rune.le_of_mem_take_first⟩
              by_cases hsmall : b < 0x80
              · by_cases hb : Token.isBlank b = true
                · exact .inl hb
                · have hfirst : Text.Rune.first b rest = (.char (Char.ofNat b.toNat), 0) :=
                    if_pos hsmall
                  rw [hfirst] at hblank
                  exact .inr (isForeign_of_isBlank hsmall (by simpa using hb) hblank)
              · exact .inr (isForeign_of_le (UInt8.not_lt.mp hsmall))
          · cases h

/-- Foreign bytes are illegal tokens. -/
theorem kind_of_isForeign {c : Token.Cursor} {ts : List Token} {stop : Position}
    (h : c.Scans ts stop) (hrest : ∀ b ∈ c.rest, Token.isBlank b = true ∨ isForeign b = true) :
    ∀ t ∈ ts, t.kind = .illegal := by
  induction h with
  | done hnext => exact List.forall_mem_nil _
  | @token c c' t ts stop hnext more ih =>
      rw [Token.Cursor.next?] at hnext
      split at hnext
      · cases hnext
      · next b rest pos hc =>
          cases hnext
          have hdrop : c.rest.dropWhile Token.isBlank = b :: rest := congrArg Token.Cursor.rest hc
          have hsub : ∀ b' ∈ b :: rest, b' ∈ c.rest := fun b' hb' =>
            (List.dropWhile_sublist _).mem (hdrop ▸ hb')
          have hb : isForeign b = true := by
            have hhead := Token.head?_dropWhile_eq_false Token.isBlank c.rest b (by rw [hdrop]; rfl)
            simpa [hhead] using hrest b (hsub b (.head _))
          refine List.forall_mem_cons.mpr ⟨kind_lexeme_of_isForeign hb rest, ih fun b' hb' => ?_⟩
          refine hrest b' (hsub b' ?_)
          rw [← Token.slice_append_rest b rest]
          exact List.mem_append_right _ hb'

theorem opens_eq_zero {ts : List Token} (h : ∀ t ∈ ts, openWeight t.kind = 0) : opens ts = 0 := by
  induction ts with
  | nil => rfl
  | cons t ts ih =>
      obtain ⟨ht, hts⟩ := List.forall_mem_cons.mp h
      rw [opens_cons, ht, ih hts, Int.zero_add]

theorem openDepth_of_isBlankText {text : Bytes} (h : isBlankText text = true) :
    openDepth text = 0 := by
  obtain ⟨ts, stop, hscans⟩ := Token.Cursor.exists_scans ⟨text, .start⟩
  have hblank : Text.trimStartFrom 0 text = [] := List.isEmpty_iff.mp h
  have hbytes := isBlank_or_isForeign hblank (by simp)
  rw [openDepth_eq, Token.Stream.ofSource, Token.scan_of_scans hscans]
  refine opens_eq_zero fun t ht => ?_
  rw [kind_of_isForeign hscans hbytes t ht]
  rfl

/-- What comes after a line feed does not matter to the start of a text that is not blank. -/
theorem trimStartFrom_append_lineFeed {skip : Nat} {text : Bytes}
    (h : Text.trimStartFrom skip text ≠ []) (more : Bytes) :
    Text.trimStartFrom skip (text ++ 0x0a :: more) =
      Text.trimStartFrom skip text ++ 0x0a :: more := by
  induction text generalizing skip with
  | nil => exact absurd rfl h
  | cons b rest ih =>
      cases skip with
      | succ skip => exact ih h
      | zero =>
          rw [Text.trimStartFrom] at h
          rw [List.cons_append, Text.trimStartFrom, Text.trimStartFrom,
            Text.Rune.first_append_lineFeed]
          dsimp only at h ⊢
          split
          · next hblank => exact ih (by rwa [if_pos hblank] at h)
          · rfl

theorem isCommand_append_lineFeed {text : Bytes} (h : isBlankText text = false) (more : Bytes) :
    isCommand (text ++ 0x0a :: more) = isCommand text := by
  have hne : Text.trimStartFrom 0 text ≠ [] := by simpa [isBlankText, Text.trimStart] using h
  obtain ⟨b, rest, hstart⟩ := List.exists_cons_of_ne_nil hne
  unfold isCommand Text.trimStart
  rw [trimStartFrom_append_lineFeed hne, hstart]
  rfl

end Blanks

section Depth

theorem opens_map_moved (f : Position → Position) (ts : List Token) :
    opens (ts.map (Token.moved f)) = opens ts := by
  induction ts with
  | nil => rfl
  | cons t ts ih => simp [ih]

theorem openDepth_append_lineFeed (a b : Bytes) :
    openDepth (a ++ 0x0a :: b) = openDepth a + openDepth b := by
  rw [openDepth_eq, openDepth_eq, openDepth_eq, Token.items_append_lineFeed, opens_append,
    opens_map_moved]

/-- The depths of lines, one after the other. -/
def depthOf : List Bytes → Int
  | [] => 0
  | line :: lines => openDepth line + depthOf lines

theorem inputText_cons_cons (line next : Bytes) (lines : List Bytes) :
    inputText (line :: next :: lines) = line ++ 0x0a :: inputText (next :: lines) := by
  rw [inputText, Bytes.join_cons_cons, List.append_assoc]
  rfl

/-- The depth of an input is the sum of the depths of its lines. -/
theorem openDepth_inputText (lines : List Bytes) : openDepth (inputText lines) = depthOf lines := by
  induction lines with
  | nil => rfl
  | cons line lines ih =>
      cases lines with
      | nil => exact (Int.add_zero _).symm
      | cons next lines =>
          rw [inputText_cons_cons, openDepth_append_lineFeed, ih]
          rfl

/-- Whether lines make up an input: the first one is a command, or they close as many brackets as
they open. -/
def isClosed : List Bytes → Bool
  | [] => false
  | first :: lines => isCommand first || depthOf (first :: lines) ≤ 0

theorem isBlankText_of_isClosed {line : Bytes} (h : isClosed [line] = false) :
    isBlankText line = false := by
  by_contra hblank
  have hdepth := openDepth_of_isBlankText (by simpa using hblank)
  simp [isClosed, depthOf, hdepth] at h

/-- A console that has an unfinished input sees from the whole what the lines say. -/
theorem isComplete_inputText {first : Bytes} {lines : List Bytes}
    (h : lines = [] ∨ isClosed [first] = false) :
    isComplete (inputText (first :: lines)) = isClosed (first :: lines) := by
  have hcommand : isCommand (inputText (first :: lines)) = isCommand first := by
    cases lines with
    | nil => rfl
    | cons next lines =>
        rw [inputText_cons_cons]
        exact isCommand_append_lineFeed (isBlankText_of_isClosed (h.resolve_left (by simp))) _
  rw [isComplete, hcommand, openDepth_inputText, isClosed]

theorem inputText_ne_nil {lines : List Bytes} (hne : lines ≠ []) (h : isClosed lines = false) :
    inputText lines ≠ [] := by
  intro hnil
  have hdepth := openDepth_inputText lines
  rw [hnil] at hdepth
  obtain ⟨first, rest, rfl⟩ := List.exists_cons_of_ne_nil hne
  simp [isClosed, ← hdepth, show openDepth [] = 0 from rfl] at h

end Depth

end Session

end Monkey
