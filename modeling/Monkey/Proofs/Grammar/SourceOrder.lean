import Monkey.Proofs.Grammar.Joining
import Monkey.Proofs.Token.Positions
import Monkey.Proofs.Tree.Listing

/-!
# What is read stands in the order of the source

The tokens of a program that is read, from the first to the last, are tokens of the stream in their
order, whether or not there are faults (`parse_wellFormed`). So are those of its leaves, the
identifiers, integers and booleans, which a walk through the program meets one after the other.
-/

namespace Monkey.Grammar

section Leaves

open Node (leavesAmong leafKinds)

theorem leavesAmong_contentTokens (ts : List Token) :
    leavesAmong (contentTokens ts) = leavesAmong ts := by
  have hcontent : ∀ kind ∈ leafKinds, kind ∉ separators := by decide
  rw [leavesAmong, contentTokens, List.filter_filter]
  apply List.filter_congr
  intro t _
  by_cases hleaf : t.kind ∈ leafKinds
  · simp [hleaf, hcontent _ hleaf]
  · simp [hleaf]

/-- The leaves of what is read are tokens of the stream, in their order. -/
theorem leafTokens_parse (input : Token.Stream) (tracing : Bool) :
    (Node.program (parse input tracing).program).leafTokens =
      leavesAmong (parse input tracing).program.tokens := by
  have hnode : (Node.program (parse input tracing).program).WellFormed :=
    (parse_wellFormed input tracing).1
  exact hnode.leafTokens_eq

/-- If there is no fault, no token of a leaf is missing. -/
theorem leavesAmong_tokens_parse {input : Token.Stream} {tracing : Bool}
    (hend : ∀ t ∈ input.items, t.kind ≠ .eof) (hfaults : (parse input tracing).faults = []) :
    leavesAmong (parse input tracing).program.tokens = leavesAmong input.items := by
  have hbrace : Token.kind ⟨.rbrace, [], .start⟩ = .rbrace := rfl
  obtain ⟨k, -, hderives⟩ := exists_derives hend hfaults hbrace
  have hcontent := hderives.contentTokens_eq
  rw [contentTokens_append_replicate (by decide)] at hcontent
  rw [← leavesAmong_contentTokens, ← leavesAmong_contentTokens input.items, ← hcontent]
  rfl

/-- The tokens of a source stand one after the other. -/
theorem pairwise_pos_tokens (source : Bytes) :
    ((Token.tokens source).map Token.pos).Pairwise (· < ·) := by
  obtain ⟨ts, stop, hscans⟩ := Token.Cursor.exists_scans ⟨source, .start⟩
  have hpos := hscans.pairwise_pos
  rw [Token.tokens, Token.Stream.ofSource, Token.scan_of_scans hscans, Token.Stream.drain,
    List.map_append]
  exact hpos

/-- A walk is in the order of the source. For every tree there is the list of the places of its
nodes, holes left out, a node before what is below it and the places below a child before those
below the next; a walk meets what is at these places, each once, except that it leaves out all
places below a node that it does not enter. For what is read from a source, with faults or not, the
identifiers, integers and booleans that a walk through the whole of it meets have tokens of the
source, one after the other, and without faults they have all the tokens of these kinds. -/
theorem walk_in_source_order :
    (∀ n : Node, ∃ places, n.Lists places ∧
        ∀ enter, n.walk enter = (n.pruned enter places).filterMap n.at?) ∧
      ∀ source tracing,
        let parsed := parseSource source tracing
        let leaves := (Node.program parsed.program).leafTokens
        leaves.Sublist (Token.tokens source) ∧ (leaves.map Token.pos).Pairwise (· < ·) ∧
          (parsed.faults = [] → leaves = leavesAmong (Token.tokens source)) := by
  constructor
  · intro n
    obtain ⟨places, hplaces⟩ := n.exists_walksAlong
    exact ⟨places, hplaces.toLists, hplaces.walk_eq⟩
  · intro source tracing parsed leaves
    have hleaves : leaves = leavesAmong parsed.program.tokens := leafTokens_parse _ tracing
    have hsublist : leaves.Sublist (Token.tokens source) := by
      rw [hleaves]
      exact List.filter_sublist.trans
        ((parse_wellFormed _ tracing).2.trans (List.sublist_append_left _ _))
    refine ⟨hsublist, (pairwise_pos_tokens source).sublist (hsublist.map _), fun hfaults => ?_⟩
    have hitems := leavesAmong_tokens_parse (Token.kind_ne_eof_ofSource source) hfaults
    rw [hleaves, Token.tokens, Token.Stream.drain, Node.leavesAmong_append]
    exact hitems.trans (List.append_nil _).symm

end Leaves

end Monkey.Grammar
