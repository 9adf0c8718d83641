import Monkey.Proofs.Grammar.OpenBlocks
import Monkey.Session.Console

/-!
# When an input is complete

A console counts the brackets of what it has read to tell whether another line belongs to the input.
If there are no faults in the input, the count is the number of blocks that are open at its end, so
that the console asks for another line just as long as a block is open.
-/

namespace Monkey

namespace Token

/-- Closing braces on a line of their own. -/
theorem spells_rbraces (j : Nat) :
    Spells (List.replicate j 0x7d) (List.replicate j ⟨.rbrace, [0x7d], .start⟩) := by
  induction j with
  | zero => exact .nil
  | succ j ih =>
      refine .byte (by decide) (fun c hc => ?_) ih
      have hmem : c ∈ List.replicate j 0x7d := List.mem_of_mem_head? hc
      rw [List.eq_of_mem_replicate hmem]
      decide

/-- The tokens of a source with closing braces on a line after it. -/
theorem exists_items_append_rbraces (source : Bytes) (j : Nat) :
    ∃ js : List Token, js.length = j ∧ (∀ t ∈ js, t.kind = .rbrace) ∧
      (Stream.ofSource (source ++ 0x0a :: List.replicate j 0x7d)).items =
        (Stream.ofSource source).items ++ js := by
  have hbraces := (spells_rbraces j).map_items
  refine ⟨_, ?_, ?_, items_append_lineFeed source (List.replicate j 0x7d)⟩
  · simpa using congrArg List.length hbraces
  · intro t ht
    obtain ⟨u, hu, rfl⟩ := List.mem_map.mp ht
    have hmem : u.unplaced ∈ List.replicate j ⟨.rbrace, [0x7d], .start⟩ :=
      hbraces ▸ List.mem_map_of_mem hu
    exact congrArg Token.kind (List.eq_of_mem_replicate hmem)

end Token

namespace Session

open Grammar

/-- Whether a byte is no part of the language. -/
def isForeign (b : UInt8) : Bool :=
  !Token.isLetter b && !Token.isDigit b && Token.byteKind b = .illegal

theorem isForeign_of_le {b : UInt8} (h : 0x80 ≤ b) : isForeign b = true := by
  have hbytes : ∀ n : Fin 256, 0x80 ≤ n.val → isForeign (UInt8.ofNat n.val) = true := by
    decide +kernel
  have hfound := hbytes ⟨b.toNat, b.toNat_lt⟩ (UInt8.le_iff_toNat_le.mp h)
  rwa [UInt8.ofNat_toNat] at hfound

/-- A small blank that does not count as one between tokens is foreign. -/
theorem isForeign_of_isBlank {b : UInt8} (hsmall : b < 0x80) (hb : Token.isBlank b = false)
    (hblank : Text.isBlank (Char.ofNat b.toNat) = true) : isForeign b = true := by
  have hbytes : ∀ n : Fin 128, Token.isBlank (UInt8.ofNat n.val) = false →
      Text.isBlank (Char.ofNat n.val) = true → isForeign (UInt8.ofNat n.val) = true := by
    decide +kernel
  have hfound := hbytes ⟨b.toNat, UInt8.lt_iff_toNat_lt.mp hsmall⟩
  simp only [UInt8.ofNat_toNat] at hfound
  exact hfound hb hblank

theorem exists_isForeign {text : Bytes} (h : isCommand text = true) :
    ∃ b rest, text.dropWhile Token.isBlank = b :: rest ∧ isForeign b = true := by
  have hhead : (Text.trimStartFrom 0 text).head? = some 0x3a := of_decide_eq_true h
  clear h
  induction text with
  | nil => cases hhead
  | cons b rest ih =>
      by_cases hb : Token.isBlank b = true
      · have hskip : Text.trimStartFrom 0 (b :: rest) = Text.trimStartFrom 0 rest := by
          simp only [Token.isBlank, Bool.or_eq_true, beq_iff_eq] at hb
          rcases hb with ((rfl | rfl) | rfl) | rfl <;> rfl
        rw [List.dropWhile_cons_of_pos hb]
        exact ih (hskip ▸ hhead)
      · rw [List.dropWhile_cons_of_neg hb]
        refine ⟨b, rest, rfl, ?_⟩
        by_cases hsmall : b < 0x80
        · by_cases hblank : Text.isBlank (Char.ofNat b.toNat) = true
          · exact isForeign_of_isBlank hsmall (by simpa using hb) hblank
          · have hstay : Text.trimStartFrom 0 (b :: rest) = b :: rest := by
              simp [Text.trimStartFrom, Text.Rune.first, hsmall, Text.Rune.isBlank, hblank]
            rw [hstay] at hhead
            obtain rfl : b = 0x3a := Option.some.inj hhead
            decide
        · exact isForeign_of_le (UInt8.not_lt.mp hsmall)

theorem kind_lexeme_of_isForeign {b : UInt8} (hb : isForeign b = true) (rest : Bytes) :
    (Token.lexeme b rest).kind = .illegal := by
  simp only [isForeign, Bool.and_eq_true, Bool.not_eq_true', decide_eq_true_eq] at hb
  obtain ⟨⟨hletter, hdigit⟩, hkind⟩ := hb
  simp only [Token.lexeme, hletter, hdigit, Bool.false_eq_true, if_false]
  split
  · cases hkind
  · cases hkind
  · exact hkind

/-- A command is no source: its first token is illegal. -/
theorem leadKind_of_isCommand {text : Bytes} (h : isCommand text = true) :
    leadKind (Token.Stream.ofSource text).items = .illegal := by
  obtain ⟨b, rest, htext, hb⟩ := exists_isForeign h
  have hlexeme := kind_lexeme_of_isForeign hb rest
  obtain ⟨ts, stop, hscans⟩ := Token.Cursor.exists_scans ⟨text, .start⟩
  rw [Token.Stream.ofSource, Token.scan_of_scans hscans]
  cases hscans with
  | done hnone => simp [Token.Cursor.next?, Token.Cursor.skipBlanks, htext] at hnone
  | @token _ c t ts _ hnext more =>
      simp only [Token.Cursor.next?, Token.Cursor.skipBlanks, htext, Option.some.injEq,
        Prod.mk.injEq] at hnext
      obtain ⟨rfl, -⟩ := hnext
      exact hlexeme

theorem isCommand_eq_false {source : Bytes} {tracing : Bool}
    (hfaults : (parseSource source tracing).faults = []) : isCommand source = false := by
  by_contra hcommand
  have hlead := leadKind_of_isCommand (by simpa using hcommand)
  obtain ⟨n, hn⟩ := (faults_eq_nil_iff (Token.kind_ne_eof_ofSource source)).mp hfaults
  cases hitems : (Token.Stream.ofSource source).items with
  | nil =>
      rw [hitems] at hlead
      cases hlead
  | cons t ts =>
      rw [hitems] at hlead hn
      have ht : t.kind = .illegal := hlead
      have hfault : step [.program] t = .error (.noExpression .illegal) := by
        simp [step, Expectation.meet, Expectation.statementReaction, Expectation.operandReaction,
          ht, Reaction.andThen]
      rw [outlook, hfault] at hn
      cases hn

/-- Closing braces after a source without faults. -/
theorem parseSource_append_rbraces {source : Bytes} {tracing : Bool}
    (hfaults : (parseSource source tracing).faults = []) (j : Nat) :
    (j ≤ openDepth source →
        (parseSource (source ++ 0x0a :: List.replicate j 0x7d) tracing).faults = [] ∧
          (parseSource (source ++ 0x0a :: List.replicate j 0x7d) tracing).program =
            (parseSource source tracing).program) ∧
      (openDepth source < j →
        (parseSource (source ++ 0x0a :: List.replicate j 0x7d) tracing).faults ≠ []) := by
  obtain ⟨js, hlength, hjs, hitems⟩ := Token.exists_items_append_rbraces source j
  have hboth := parse_append_rbraces (Token.kind_ne_eof_ofSource source) hfaults hjs hitems
  rwa [← openDepth_eq, hlength] at hboth

/-- The depth of a source without faults is the number of its blocks that are open at the end. As
many closing braces can be added and make no difference, and no more. A console gives such a source
out if all its blocks are closed, and asks for another line otherwise. -/
theorem openDepth_agrees (source : Bytes) (tracing : Bool)
    (hfaults : (parseSource source tracing).faults = []) :
    0 ≤ openDepth source ∧
      (∀ j : Nat, j ≤ openDepth source →
        (parseSource (source ++ 0x0a :: List.replicate j 0x7d) tracing).faults = [] ∧
          (parseSource (source ++ 0x0a :: List.replicate j 0x7d) tracing).program =
            (parseSource source tracing).program) ∧
      (∀ j : Nat, openDepth source < j →
        (parseSource (source ++ 0x0a :: List.replicate j 0x7d) tracing).faults ≠ []) ∧
      ((parseSource source true).openEnds : Int) = openDepth source ∧
      ∀ (c : Console) (line : Bytes), inputText (c.pending ++ [line]) = source →
        c.accept line =
          if (parseSource source true).openEnds = 0 then ({ c with pending := [] }, some source)
          else ({ c with pending := c.pending ++ [line] }, none) := by
  have hend := Token.kind_ne_eof_ofSource source
  have hopens : ((parseSource source true).openEnds : Int) = openDepth source := by
    rw [openDepth_eq]
    exact openEnds_eq_opens hend hfaults
  refine ⟨by omega, fun j => (parseSource_append_rbraces hfaults j).1,
    fun j => (parseSource_append_rbraces hfaults j).2, hopens, ?_⟩
  intro c line hline
  have hcomplete : isComplete source = decide ((parseSource source true).openEnds = 0) := by
    rw [isComplete, isCommand_eq_false hfaults, Bool.false_or, ← hopens]
    simp
  simp only [Console.accept, hline, hcomplete, decide_eq_true_eq]

/-- Two blocks are open in `if (f(1)) { fn(x) { x`. -/
theorem openDepth_agrees_open_blocks :
    let source := utf8 "if (f(1)) \x7b fn(x) \x7b x"
    openDepth source = 2 ∧
      (parseSource (source ++ utf8 "\n\x7d\x7d") false).faults = [] ∧
      (parseSource (source ++ utf8 "\n\x7d\x7d") false).program =
        (parseSource source false).program ∧
      (parseSource (source ++ utf8 "\n\x7d\x7d\x7d") false).faults ≠ [] ∧
      (parseSource source true).openEnds = 2 := by
  intro source
  have hfaults : (parseSource source false).faults = [] := by decide +kernel
  have hdepth : openDepth source = 2 := by decide +kernel
  obtain ⟨-, hclosed, hmore, hopen, -⟩ := openDepth_agrees source false hfaults
  rw [hdepth] at hclosed hmore hopen
  exact ⟨hdepth, (hclosed 2 (by decide)).1, (hclosed 2 (by decide)).2, hmore 3 (by decide),
    by exact_mod_cast hopen⟩

end Session

end Monkey
