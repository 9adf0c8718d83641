import Monkey.Proofs.Grammar.FirstFault
import Monkey.Proofs.Grammar.Joining

/-!
# Blocks that are open at the end

A source without faults may end inside of blocks, and the end of the source closes them. As many
blocks are open then as more brackets are opened than closed by its tokens, parentheses included,
since none of these is open. Each of the blocks can also be closed by a brace, which makes no
difference to the program, and there is no place for further braces.
-/

namespace Monkey.Grammar

open Expectation

section Braces

variable {x : Expectation} {K : List Expectation} {t : Token} {js : List Token} {n : Nat}

/-- Where the input can end, blocks are expected, and what may be left out. -/
theorem closing_cons_cases (hx : x.isInner = true) (h : closing (x :: K) = .ok n) :
    (x = .block ∧ ∃ m, n = m + 1 ∧ closing K = .ok m) ∨ x.closers = [] ∧ closing K = .ok n := by
  rcases closers_cases hx with ⟨t, hclosers, -, -⟩ | ⟨hclosers, -, hopen⟩
  · cases x with
    | token kind =>
        have hkind : endToken.kind ≠ kind := (of_decide_eq_true hx).symm
        rw [closing, meet, if_neg hkind] at h
        cases h
    | block =>
        cases hK : closing K with
        | ok m =>
            have hn : 1 + m = n := by
              simpa [closing, meet, endToken, openBlocks, hK, Except.map] using h
            exact .inl ⟨rfl, m, by omega, rfl⟩
        | error f => simp [closing, meet, endToken, hK, Except.map] at h
    | operators level => cases hclosers
    | semicolon => cases hclosers
    | alternative => cases hclosers
    | statement => cases hx
    | program => cases hx
    | _ => cases h
  · have hpass : x.meet endToken = .passes := meet_eq_passes hx hclosers (by decide)
    have hsame : outlook (x :: K) [] = outlook K [] := outlook_of_passes hpass (.inl hopen)
    exact .inr ⟨hclosers, hsame.symm.trans h⟩

/-- Where the input can end, a brace closes a block, if one is open. -/
theorem Orderly.step_rbrace (h : Orderly K) (ht : t.kind = .rbrace) (hclosing : closing K = .ok n) :
    (n = 0 ∧ ∃ f, step K t = .error f) ∨
      ∃ m K', n = m + 1 ∧ step K t = .ok K' ∧ closing K' = .ok m := by
  induction h generalizing n with
  | program =>
      cases hclosing
      refine .inl ⟨rfl, .noExpression .rbrace, ?_⟩
      simp [step, meet, statementReaction, operandReaction, ht, Reaction.andThen]
  | @cons x y K hx hxy hK ih =>
      rcases closing_cons_cases hx hclosing with ⟨rfl, m, rfl, hm⟩ | ⟨hclosers, hn⟩
      · exact .inr ⟨m, y :: K, rfl, by simp [step, meet, ht], hm⟩
      · have hpass : x.meet t = .passes := meet_eq_passes hx hclosers (by simp [ht, closingKinds])
        have hstep : step (x :: y :: K) t = step (y :: K) t := by rw [step, hpass]
        rw [hstep]
        exact ih hn

theorem Orderly.outlook_rbraces (h : Orderly K) (hclosing : closing K = .ok n)
    (hjs : ∀ t ∈ js, t.kind = .rbrace) :
    (js.length ≤ n → outlook K js = .ok (n - js.length)) ∧
      (n < js.length → ∃ f, outlook K js = .error f) := by
  induction js generalizing K n with
  | nil => exact ⟨fun _ => hclosing, fun h => absurd h (Nat.not_lt_zero n)⟩
  | cons t js ih =>
      rw [List.forall_mem_cons] at hjs
      rcases h.step_rbrace hjs.1 hclosing with ⟨rfl, f, hstep⟩ | ⟨m, K', rfl, hstep, hm⟩
      · exact ⟨fun h => by simp at h, fun _ => ⟨f, by rw [outlook, hstep]⟩⟩
      · have hK' : Orderly K' := h.after_step (by simp [hjs.1]) hstep
        obtain ⟨hle, hlt⟩ := ih hK' hm hjs.2
        simp only [outlook, hstep, List.length_cons, Nat.add_le_add_iff_right,
          Nat.add_lt_add_iff_right, Nat.add_sub_add_right]
        exact ⟨hle, hlt⟩

/-- Braces after tokens without faults close the blocks that are open, and one more is a fault. -/
theorem outlook_append_rbraces {ts : List Token} (hts : ∀ t ∈ ts, t.kind ≠ .eof)
    (h : outlook [.program] ts = .ok n) (hjs : ∀ t ∈ js, t.kind = .rbrace) :
    (js.length ≤ n → outlook [.program] (ts ++ js) = .ok (n - js.length)) ∧
      (n < js.length → ∃ f, outlook [.program] (ts ++ js) = .error f) := by
  obtain ⟨K, hleads, hclosing⟩ := exists_leads h
  rw [hleads.outlook_append]
  exact (hleads.orderly .program hts).outlook_rbraces hclosing hjs

end Braces

/-- Tokens that have a derivation are read as what they are derived as. -/
theorem Derives.parse_streamOf {ss : List Stmt} {ts : List Token}
    (h : Derives .strict (.stmts ss) ts) (tracing : Bool) :
    (parse (streamOf ts) tracing).faults = [] ∧ (parse (streamOf ts) tracing).program = ⟨ss⟩ :=
  @Derives.parse_items ss (streamOf ts) h tracing

section Opens

variable {input : Token.Stream} {n : Nat}

theorem forall_mem_append_replicate {ts : List Token} (hts : ∀ t ∈ ts, t.kind ≠ .eof) (k : Nat) :
    ∀ t ∈ ts ++ List.replicate k (sample .rbrace), t.kind ≠ .eof := by
  refine List.forall_mem_append.mpr ⟨hts, fun t ht => ?_⟩
  rw [List.eq_of_mem_replicate ht]
  decide

/-- As many blocks are open at the end as more brackets are opened than closed. -/
theorem opens_eq_of_outlook (hend : ∀ t ∈ input.items, t.kind ≠ .eof)
    (h : outlook [.program] input.items = .ok n) : opens input.items = n := by
  have hclosed := forall_mem_append_replicate hend
  have hbraces : ∀ k, ∀ t ∈ List.replicate k (sample .rbrace), t.kind = .rbrace :=
    fun k t ht => List.eq_of_mem_replicate ht ▸ rfl
  have hfaults : (parse input false).faults = [] := faults_eq_nil hend h
  have hbrace : (sample .rbrace).kind = .rbrace := rfl
  obtain ⟨k, hk, hderives⟩ := exists_derives hend hfaults hbrace
  -- the `k` braces of the derivation all find a block, and so do `n` braces, after which the
  -- brackets are still not closed more often than opened
  have hle : k ≤ n := by
    by_contra hlt
    obtain ⟨f, hf⟩ := (outlook_append_rbraces hend h (hbraces k)).2 (by simpa using hlt)
    exact faults_ne_nil (hclosed k) hf (hderives.parse_streamOf false).1
  have hge : n ≤ k := by
    have hzero := (outlook_append_rbraces hend h (hbraces n)).1 (by simp)
    have hfaults' : (parse (streamOf (input.items ++ List.replicate n (sample .rbrace)))
        false).faults = [] := faults_eq_nil (hclosed n) hzero
    obtain ⟨m, hm, -⟩ := exists_derives (hclosed n) hfaults' hbrace
    rw [streamOf, opens_append, opens_replicate, hbrace, Session.openWeight] at hm
    omega
  omega

end Opens

/-- A token, or `brace` if it is a closing brace. -/
def closedBy (brace t : Token) : Token := if t.kind = .rbrace then brace else t

section ClosedBy

variable {brace t : Token}

theorem closedBy_of_ne (h : t.kind ≠ .rbrace) : closedBy brace t = t := if_neg h

theorem closedBy_rbrace (h : t.kind = .rbrace) : closedBy brace t = brace := if_pos h

theorem leadKind_map_closedBy (hbrace : brace.kind = .rbrace) (ts : List Token) :
    leadKind (ts.map (closedBy brace)) = leadKind ts := by
  cases ts with
  | nil => rfl
  | cons t ts =>
      by_cases h : t.kind = .rbrace
      · simp [leadKind, closedBy_rbrace h, hbrace, h]
      · simp [leadKind, closedBy_of_ne h]

theorem MoreParams.map_closedBy {ids : List Ident} {ts : List Token} (h : MoreParams ids ts) :
    ts.map (closedBy brace) = ts := by
  induction h with
  | nil => rfl
  | cons hcomma hname more ih => simp [closedBy, hcomma, hname, ih]

theorem Params.map_closedBy {ids : List Ident} {ts : List Token} (h : Params ids ts) :
    ts.map (closedBy brace) = ts := by
  cases h with
  | none => rfl
  | some hname more => simp [closedBy, hname, more.map_closedBy]

/-- It does not matter which tokens the closing braces are. -/
theorem Derives.map_closedBy (hbrace : brace.kind = .rbrace) {ph : Phrase} {ts : List Token}
    (h : Derives .strict ph ts) : Derives .strict ph (ts.map (closedBy brace)) := by
  induction h with
  | ident ht => simpa [closedBy, ht] using Derives.ident ht
  | int ht hvalue => simpa [closedBy, ht] using Derives.int ht hvalue
  | yes ht => simpa [closedBy, ht] using Derives.yes ht
  | no ht => simpa [closedBy, ht] using Derives.no ht
  | group hlp inside hrp ih => simpa [closedBy, hlp, hrp] using Derives.group hlp ih hrp
  | cond ht hlp condition hrp consequence ihc ihb =>
      simpa [closedBy, ht, hlp, hrp] using Derives.cond ht hlp ihc hrp ihb
  | condElse ht hlp condition hrp consequence hel alternative ihc ihb iha =>
      simpa [closedBy, ht, hlp, hrp, hel] using Derives.condElse ht hlp ihc hrp ihb hel iha
  | function ht hlp params hrp body ih =>
      simpa [closedBy, ht, hlp, hrp, params.map_closedBy] using
        Derives.function ht hlp params hrp ih
  | call hlevel callee hlp args hrp ihf iha =>
      simpa [closedBy, hlp, hrp] using Derives.call hlevel ihf hlp iha hrp
  | @unary level t r ts hlevel ht right ih =>
      have hne : t.kind ≠ .rbrace := fun h => absurd ht (by simp [h, signs])
      simpa [closedBy_of_ne hne] using Derives.unary hlevel ht ih
  | @binary level m t l r ls rs hlevel left ht right ihl ihr =>
      have hne : t.kind ≠ .rbrace := fun h =>
        absurd (openWeight_of_mem_operators ht) (by simp [h, Session.openWeight])
      simpa [closedBy_of_ne hne] using Derives.binary hlevel ihl ht ihr
  | noArgs => exact .noArgs
  | args first more ih ih' => simpa using Derives.args ih ih'
  | lastArg => exact .lastArg
  | nextArg hcomma next more ih ih' =>
      simpa [closedBy, hcomma] using Derives.nextArg hcomma ih ih'
  | block hlb body hrb ih => simpa [closedBy, hlb, hrb] using Derives.block hlb ih hbrace
  | bind ht hname heq value ih =>
      simpa [closedBy, ht, hname, heq] using Derives.bind ht hname heq ih
  | ret ht value ih => simpa [closedBy, ht] using Derives.ret ht ih
  | @exprStmt t v ts value ih =>
      have hstart : t.kind ∈ starters := value.startsWith
      have hne : t.kind ≠ .rbrace := fun h => absurd hstart (by simp [h, starters])
      rw [List.map_cons, closedBy_of_ne hne] at ih ⊢
      exact .exprStmt ih
  | noStmts => exact .noStmts
  | closed first hsemi more ih ih' => simpa [closedBy, hsemi] using Derives.closed ih hsemi ih'
  | unclosed first more hnext ih ih' =>
      rw [← leadKind_map_closedBy hbrace] at hnext
      simpa using Derives.unclosed ih ih' hnext
  | openBlock hmode => cases hmode
  | dropped hmode => cases hmode

theorem map_closedBy_rbraces {js : List Token} (hjs : ∀ t ∈ js, t.kind = .rbrace) :
    js.map (closedBy brace) = List.replicate js.length brace :=
  List.map_eq_replicate_iff.mpr fun t ht => closedBy_rbrace (hjs t ht)

/-- Which tokens the closing braces are makes no difference to the program. -/
theorem Derives.stmts_eq (hbrace : brace.kind = .rbrace) {ss ss' : List Stmt} {ts ts' : List Token}
    (h : Derives .strict (.stmts ss) ts) (h' : Derives .strict (.stmts ss') ts')
    (hts : ts.map (closedBy brace) = ts'.map (closedBy brace)) : ss = ss' := by
  have hfirst := (h.map_closedBy hbrace).parse_streamOf false
  have hsecond := (h'.map_closedBy hbrace).parse_streamOf false
  rw [← hts] at hsecond
  exact Program.mk.inj (hfirst.2.symm.trans hsecond.2)

end ClosedBy

section Faultless

variable {input joined : Token.Stream} {tracing : Bool} {js : List Token}

/-- The blocks that the end of the input closes, in a trace of it. -/
theorem openEnds_eq_opens (hend : ∀ t ∈ input.items, t.kind ≠ .eof)
    (hfaults : (parse input tracing).faults = []) :
    ((parse input true).openEnds : Int) = opens input.items := by
  obtain ⟨n, hn⟩ := (faults_eq_nil_iff hend).mp hfaults
  rw [openEnds_eq hend hn, opens_eq_of_outlook hend hn]

/-- Braces that close the blocks which are open make no difference, and more braces are faults. -/
theorem parse_append_rbraces (hend : ∀ t ∈ input.items, t.kind ≠ .eof)
    (hfaults : (parse input tracing).faults = []) (hjs : ∀ t ∈ js, t.kind = .rbrace)
    (hitems : joined.items = input.items ++ js) :
    ((js.length : Int) ≤ opens input.items → (parse joined tracing).faults = [] ∧
        (parse joined tracing).program = (parse input tracing).program) ∧
      (opens input.items < js.length → (parse joined tracing).faults ≠ []) := by
  obtain ⟨n, hn⟩ := (faults_eq_nil_iff hend).mp hfaults
  have hend' : ∀ t ∈ joined.items, t.kind ≠ .eof := by
    rw [hitems, List.forall_mem_append]
    exact ⟨hend, fun t ht => by simp [hjs t ht]⟩
  obtain ⟨hle, hlt⟩ := outlook_append_rbraces hend hn hjs
  have hopens := opens_eq_of_outlook hend hn
  rw [← hitems] at hle hlt
  refine ⟨fun hlength => ?_, fun hlength => ?_⟩
  · have hclosed := hle (by omega)
    have hjoined : (parse joined tracing).faults = [] := faults_eq_nil hend' hclosed
    have hopens' := opens_eq_of_outlook hend' hclosed
    have hbrace : (sample .rbrace).kind = .rbrace := rfl
    obtain ⟨k, hk, hderives⟩ := exists_derives hend hfaults hbrace
    obtain ⟨m, hm, hderives'⟩ := exists_derives hend' hjoined hbrace
    -- the braces that are missing in either input make up for those that the other one has
    have hcount : js.length + m = k := by omega
    have hsame :
        (joined.items ++ List.replicate m (sample .rbrace)).map (closedBy (sample .rbrace)) =
          (input.items ++ List.replicate k (sample .rbrace)).map (closedBy (sample .rbrace)) := by
      simp only [hitems, List.map_append, List.map_replicate, closedBy_rbrace hbrace,
        map_closedBy_rbraces hjs, List.append_assoc, List.replicate_append_replicate, hcount]
    exact ⟨hjoined, congrArg Program.mk (hderives'.stmts_eq hbrace hderives hsame)⟩
  · obtain ⟨f, hf⟩ := hlt (by omega)
    exact faults_ne_nil hend' hf

end Faultless

end Monkey.Grammar
