import Mathlib.Data.List.Dedup
import Mathlib.Data.List.Induction
import Mathlib.Data.List.Perm.Basic
import Monkey.Proofs.Grammar.Tracing
import Monkey.Proofs.Interpreter.Transparency

/-!
# What the cache holds

`recency` puts the sources that an interpreter has been asked for in order, the latest one first,
each of them once. A cache of some capacity holds the first sources of this list, as many as there is
room for, where sources with faults do not count: reading one that is kept moves it to the front, and
one that is not kept comes to the front and pushes the last one out.

So what the cache holds depends on the requests alone. A source is in it if it has been asked for, has
no faults, and fewer others than there is room for have come since. A request that is answered with
faults leaves the cache and the heap as they were.
-/

namespace Monkey.Interpreter

section Recency

/-- The list after one more source. -/
def touch (recent : List Bytes) (source : Bytes) : List Bytes :=
  source :: recent.filter (· != source)

/-- The sources of a list in the order of their last occurrence, the latest one first. -/
def recency (asked : List Bytes) : List Bytes := asked.foldl touch []

variable {asked recent : List Bytes} {source other : Bytes}

theorem recency_concat (asked : List Bytes) (source : Bytes) :
    recency (asked ++ [source]) = touch (recency asked) source := List.foldl_concat ..

theorem mem_touch : other ∈ touch recent source ↔ other = source ∨ other ∈ recent := by
  by_cases heq : other = source
  · simp [touch, heq]
  · simp [touch, heq]

theorem nodup_touch (h : recent.Nodup) : (touch recent source).Nodup := by
  rw [touch, List.nodup_cons]
  constructor
  · simp
  · exact h.filter _

theorem mem_recency : source ∈ recency asked ↔ source ∈ asked := by
  induction asked using List.reverseRecOn with
  | nil => rfl
  | append_singleton asked last ih =>
      rw [recency_concat, mem_touch, ih, List.mem_append, List.mem_singleton, or_comm]

theorem nodup_recency (asked : List Bytes) : (recency asked).Nodup := by
  induction asked using List.reverseRecOn with
  | nil => exact List.nodup_nil
  | append_singleton asked last ih =>
      rw [recency_concat]
      exact nodup_touch ih

theorem length_recency (asked : List Bytes) : (recency asked).length = asked.dedup.length := by
  apply List.Perm.length_eq
  rw [List.perm_ext_iff_of_nodup (nodup_recency asked) asked.nodup_dedup]
  intro source
  rw [mem_recency, List.mem_dedup]

/-- What was asked for later stands before what was asked for earlier. -/
theorem recency_append (first second : List Bytes) :
    recency (first ++ second) =
      recency second ++ (recency first).filter fun source => source ∉ second := by
  induction second using List.reverseRecOn with
  | nil => simp [recency]
  | append_singleton second last ih =>
      rw [← List.append_assoc, recency_concat, recency_concat, ih, touch, touch, List.filter_append,
        List.filter_filter, List.cons_append]
      congr 2
      apply List.filter_congr
      intro source _
      by_cases heq : source = last
      · simp [heq]
      · simp [heq]

theorem exists_last_occurrence (h : source ∈ asked) :
    ∃ before since, asked = before ++ source :: since ∧ source ∉ since := by
  obtain ⟨later, earlier, hreverse, hnot⟩ :=
    List.eq_append_cons_of_mem (List.mem_reverse.mpr h)
  refine ⟨earlier.reverse, later.reverse, ?_, by simpa using hnot⟩
  rw [← List.reverse_reverse asked, hreverse]
  simp

/-- A source is among the first ones if not too many others came after it. -/
theorem mem_take_recency {before since : List Bytes} (h : source ∉ since) {capacity : Nat} :
    source ∈ (recency (before ++ source :: since)).take capacity ↔
      since.dedup.length < capacity := by
  have hrecency : ∃ rest, recency (before ++ source :: since) = recency since ++ source :: rest := by
    rw [← List.concat_append, List.concat_eq_append, recency_append, recency_concat, touch,
      List.filter_cons_of_pos (by simpa using h)]
    exact ⟨_, rfl⟩
  obtain ⟨rest, hrest⟩ := hrecency
  have hnodup := nodup_recency (before ++ source :: since)
  rw [hrest, List.nodup_append] at hnodup
  rw [hrest, ← length_recency, List.take_append, List.mem_append]
  have hsince : source ∉ (recency since).take capacity :=
    fun hmem => h (mem_recency.mp (List.mem_of_mem_take hmem))
  rw [or_iff_right hsince]
  constructor
  · intro hmem
    by_contra hle
    rw [Nat.sub_eq_zero_of_le (Nat.not_lt.mp hle)] at hmem
    cases hmem
  · intro hlt
    obtain ⟨room, hroom⟩ := Nat.exists_eq_add_of_lt hlt
    rw [hroom, Nat.add_assoc, Nat.add_sub_cancel_left]
    exact .head _

/-- The same where only some of the sources count. -/
theorem mem_take_recency_filter {counts : Bytes → Bool} {capacity : Nat} :
    source ∈ (recency (asked.filter counts)).take capacity ↔
      ∃ before since, asked = before ++ source :: since ∧ source ∉ since ∧
        counts source = true ∧ (since.filter counts).dedup.length < capacity := by
  have hsplit : ∀ before since : List Bytes, counts source = true →
      (before ++ source :: since).filter counts =
        before.filter counts ++ source :: since.filter counts := by
    intro before since hcounts
    rw [List.filter_append, List.filter_cons_of_pos hcounts]
  constructor
  · intro hmem
    obtain ⟨hasked, hcounts⟩ := List.mem_filter.mp (mem_recency.mp (List.mem_of_mem_take hmem))
    obtain ⟨before, since, rfl, hnot⟩ := exists_last_occurrence hasked
    rw [hsplit before since hcounts,
      mem_take_recency fun hmem => hnot (List.mem_filter.mp hmem).1] at hmem
    exact ⟨before, since, rfl, hnot, hcounts, hmem⟩
  · rintro ⟨before, since, rfl, hnot, hcounts, hlt⟩
    rw [hsplit before since hcounts,
      mem_take_recency fun hmem => hnot (List.mem_filter.mp hmem).1]
    exact hlt

/-- Of the first sources, at most one goes when a source is moved to the front. -/
theorem take_filter_take {recent : List Bytes} (h : recent.Nodup) (room : Nat) :
    ((recent.take (room + 1)).filter (· != source)).take room =
      (recent.filter (· != source)).take room := by
  induction recent generalizing room with
  | nil => rfl
  | cons first recent ih =>
      obtain ⟨hfirst, hrecent⟩ := List.nodup_cons.mp h
      rw [List.take_succ_cons]
      by_cases heq : first = source
      · have hall : ∀ other ∈ recent, (other != source) = true := by
          intro other hother
          rw [bne_iff_ne, ← heq]
          rintro rfl
          exact hfirst hother
        have htake : (recent.take room).filter (· != source) = recent.take room :=
          List.filter_eq_self.mpr fun other hother => hall other (List.mem_of_mem_take hother)
        rw [List.filter_cons_of_neg (by simp [heq]), List.filter_cons_of_neg (by simp [heq]), htake,
          List.filter_eq_self.mpr hall, List.take_take, Nat.min_self]
      · have hne : (first != source) = true := bne_iff_ne.mpr heq
        rw [List.filter_cons_of_pos (p := (· != source)) hne,
          List.filter_cons_of_pos (p := (· != source)) hne]
        cases room with
        | zero => rfl
        | succ room => rw [List.take_succ_cons, List.take_succ_cons, ih hrecent]

end Recency

section Cache

/-- The source is read without faults. -/
def isFaultless (source : Bytes) : Bool := (Grammar.parseSource source false).faults.isEmpty

theorem faults_isEmpty (source : Bytes) (tracing : Bool) :
    (Grammar.parseSource source tracing).faults.isEmpty = isFaultless source := by
  have hfaults := (Grammar.parse_untraced (.ofSource source) tracing).2
  exact congrArg List.isEmpty hfaults

variable {i : Interpreter} {source : Bytes}

theorem sources_without (c : ProgramCache) (source : Bytes) :
    (c.without source).map Prod.fst = c.sources.filter (· != source) := by
  rw [ProgramCache.without, ProgramCache.sources, List.filter_map]
  rfl

theorem isCached_iff : i.isCached source = true ↔ source ∈ i.cache.sources := by
  rw [isCached, ProgramCache.find?, Option.isSome_map, List.lookup_isSome_iff,
    ProgramCache.sources, List.mem_map]
  constructor
  · rintro ⟨entry, hentry, heq⟩
    exact ⟨entry, hentry, (beq_iff_eq.mp heq).symm⟩
  · rintro ⟨entry, hentry, rfl⟩
    exact ⟨entry, hentry, beq_self_eq_true _⟩

/-- A cache with room for `capacity` sources after the given ones were asked for. -/
structure HoldsLatest (i : Interpreter) (capacity : Nat) (asked : List Bytes) : Prop where
  sound : i.CacheSound
  capacity_eq : i.cache.capacity = capacity
  sources_eq : i.cache.sources = (recency (asked.filter isFaultless)).take capacity

/-- What a request for a source does to the cache. -/
inductive Refreshed (source : Bytes) (c c' : ProgramCache) : Prop where
  /-- The source is kept and becomes the latest one. -/
  | hit (hmem : source ∈ c.sources) (hsources : c'.sources = touch c.sources source)
  /-- The source comes in, and the last one may have to go. -/
  | miss (hfaultless : isFaultless source = true)
      (hsources : c'.sources = (touch c.sources source).take c.capacity)
  | fault (hfaulty : isFaultless source = false) (heq : c' = c)

theorem refreshed_parse (i : Interpreter) (source : Bytes) :
    Refreshed source i.cache (i.parse source).2.cache ∧
      (i.parse source).2.cache.capacity = i.cache.capacity := by
  rw [parse]
  cases hfind : i.cache.find? source with
  | some found =>
      have hcached : i.isCached source = true := by rw [isCached, hfind, Option.isSome_some]
      obtain ⟨program, -, rfl⟩ := Option.map_eq_some_iff.mp hfind
      refine ⟨.hit (isCached_iff.mp hcached) ?_, rfl⟩
      exact congrArg (source :: ·) (sources_without i.cache source)
  | none =>
      obtain ⟨journal, hjournal⟩ :=
        foldl_note Grammar.TraceNote.record (Grammar.parseSource source i.tracing).trace i
      simp only [hjournal, faults_isEmpty]
      cases hclean : isFaultless source with
      | true =>
          refine ⟨.miss hclean ?_, rfl⟩
          rw [touch, ← sources_without]
          exact List.map_take
      | false => exact ⟨.fault hclean rfl, rfl⟩

theorem take_touch_take {recent : List Bytes} (h : recent.Nodup) {capacity : Nat}
    (hcapacity : 0 < capacity) :
    (touch (recent.take capacity) source).take capacity = (touch recent source).take capacity := by
  obtain ⟨room, rfl⟩ := Nat.exists_eq_add_of_lt hcapacity
  rw [Nat.zero_add, touch, touch, List.take_succ_cons, List.take_succ_cons, take_filter_take h]

/-- Nothing has to go if the source is kept already. -/
theorem take_touch_of_mem {recent : List Bytes} (h : source ∈ recent) {capacity : Nat}
    (hlength : recent.length ≤ capacity) :
    (touch recent source).take capacity = touch recent source := by
  have hfilter : (recent.filter (· != source)).length < recent.length :=
    List.length_filter_lt_length_iff_exists.mpr ⟨source, h, by simp⟩
  exact List.take_of_length_le (Nat.le_trans hfilter hlength)

theorem HoldsLatest.isFaultless {capacity : Nat} {asked : List Bytes}
    (h : i.HoldsLatest capacity asked) (hmem : source ∈ i.cache.sources) :
    isFaultless source = true := by
  rw [h.sources_eq] at hmem
  exact (List.mem_filter.mp (mem_recency.mp (List.mem_of_mem_take hmem))).2

theorem HoldsLatest.parse {capacity : Nat} (hcapacity : 0 < capacity) {asked : List Bytes}
    (h : i.HoldsLatest capacity asked) (source : Bytes) :
    (i.parse source).2.HoldsLatest capacity (asked ++ [source]) where
  sound := (parse_cases h.sound source).2.1
  capacity_eq := (refreshed_parse i source).2.trans h.capacity_eq
  sources_eq := by
    have hnodup := nodup_recency (asked.filter Interpreter.isFaultless)
    have hlength : i.cache.sources.length ≤ capacity := by
      rw [h.sources_eq]
      exact List.length_take_le _ _
    have htouch : Interpreter.isFaultless source = true →
        recency ((asked ++ [source]).filter Interpreter.isFaultless) =
          touch (recency (asked.filter Interpreter.isFaultless)) source := by
      intro hfaultless
      rw [List.filter_append, List.filter_cons_of_pos hfaultless, List.filter_nil, recency_concat]
    cases (refreshed_parse i source).1 with
    | hit hmem hsources =>
        rw [hsources, htouch (h.isFaultless hmem), ← take_touch_take hnodup hcapacity,
          ← h.sources_eq, take_touch_of_mem hmem hlength]
    | miss hfaultless hsources =>
        rw [hsources, htouch hfaultless, h.capacity_eq, h.sources_eq,
          take_touch_take hnodup hcapacity]
    | fault hfaulty heq =>
        rw [heq, List.filter_append, List.filter_cons_of_neg (by simp [hfaulty]), List.filter_nil,
          List.append_nil, h.sources_eq]

end Cache

section Requests

def Request.source : Request → Bytes
  | .parse source => source
  | .eval source => source

/-- The faults, if the answer to a request is that there are some. -/
def Answer.faults? : Answer → Option (List Grammar.Fault)
  | .read (.error faults) => some faults
  | .evaluated (.error faults) => some faults
  | _ => none

/-- The interpreter after a sequence of requests, if all of them come to an end. -/
def serveAll (i : Interpreter) : List Request → Option Interpreter
  | [] => some i
  | request :: rest => (i.serve request).bind fun served => served.2.serveAll rest

variable {i i' : Interpreter} {request : Request} {answer : Answer}

/-- Running a program does not touch the cache, and faults are answered without running one. -/
theorem serve_cases (h : i.serve request = some (answer, i')) :
    i'.cache = (i.parse request.source).2.cache ∧
      (answer.faults?.isSome = true →
        i' = (i.parse request.source).2 ∧ ∃ faults, (i.parse request.source).1 = .error faults) := by
  cases request with
  | parse source =>
      cases h
      refine ⟨rfl, fun hfaults => ⟨rfl, ?_⟩⟩
      cases hanswer : (i.parse source).1 with
      | ok program =>
          rw [hanswer] at hfaults
          cases hfaults
      | error faults => exact ⟨faults, hanswer⟩
  | eval source =>
      obtain ⟨⟨result, j⟩, heval, hfound⟩ := Option.map_eq_some_iff.mp h
      cases hfound
      rw [Interpreter.eval] at heval
      rw [Request.source]
      generalize i.parse source = parsed at heval ⊢
      obtain ⟨read, i₁⟩ := parsed
      cases read with
      | error faults =>
          cases heval
          exact ⟨rfl, fun _ => ⟨rfl, faults, rfl⟩⟩
      | ok program =>
          dsimp only at heval
          split at heval
          · next value i₂ hrun =>
              cases heval
              obtain ⟨-, -, -, hcache, -, -⟩ := run_eq_some hrun
              exact ⟨hcache, fun hfaults => by cases hfaults⟩
          · cases heval

/-- A source that is answered with faults changes neither the cache nor the heap. -/
theorem parse_of_error {source : Bytes} {faults : List Grammar.Fault}
    (h : (i.parse source).1 = .error faults) :
    (i.parse source).2.cache = i.cache ∧ (i.parse source).2.heap = i.heap := by
  rw [parse] at h ⊢
  cases hfind : i.cache.find? source with
  | some found =>
      rw [hfind] at h
      cases h
  | none =>
      rw [hfind] at h
      obtain ⟨journal, hjournal⟩ :=
        foldl_note Grammar.TraceNote.record (Grammar.parseSource source i.tracing).trace i
      simp only [hjournal] at h ⊢
      split at h
      · cases h
      · next hfaults =>
          rw [if_neg hfaults]
          exact ⟨rfl, rfl⟩

theorem HoldsLatest.serve {capacity : Nat} (hcapacity : 0 < capacity) {asked : List Bytes}
    (h : i.HoldsLatest capacity asked) (hserve : i.serve request = some (answer, i')) :
    i'.HoldsLatest capacity (asked ++ [request.source]) := by
  obtain ⟨hcache, -⟩ := serve_cases hserve
  have hparse := h.parse hcapacity request.source
  refine ⟨?_, ?_, ?_⟩
  · cases request with
    | parse source =>
        cases hserve
        exact hparse.sound
    | eval source =>
        obtain ⟨found, heval, hfound⟩ := Option.map_eq_some_iff.mp hserve
        cases hfound
        exact (eval_cases h.sound heval).2.1
  · rw [hcache, hparse.capacity_eq]
  · rw [hcache, hparse.sources_eq]

theorem HoldsLatest.serveAll {capacity : Nat} (hcapacity : 0 < capacity) {asked : List Bytes}
    (h : i.HoldsLatest capacity asked) {requests : List Request}
    (hserved : i.serveAll requests = some i') :
    i'.HoldsLatest capacity (asked ++ requests.map Request.source) := by
  induction requests generalizing i asked with
  | nil =>
      cases hserved
      simpa using h
  | cons request rest ih =>
      obtain ⟨served, hserve, hrest⟩ := Option.bind_eq_some_iff.mp hserved
      have hall := ih (h.serve hcapacity hserve) hrest
      rwa [List.append_assoc] at hall

theorem holdsLatest_fresh (settings : Settings) (capacity bound : Nat) :
    (fresh { settings with parseCache := capacity } bound).HoldsLatest capacity [] where
  sound := cacheSound_fresh _ bound
  capacity_eq := Int.toNat_natCast capacity
  sources_eq := List.take_nil.symm

end Requests

section Journal

variable {i : Interpreter} {source : Bytes}

theorem journal_foldl_note (notes : List Grammar.TraceNote) (i : Interpreter) :
    (notes.foldl (fun i n => i.note n.record) i).journal =
      (notes.map Grammar.TraceNote.record).reverse ++ i.journal := by
  induction notes generalizing i with
  | nil => rfl
  | cons n notes ih =>
      rw [List.foldl_cons, ih, List.map_cons, List.reverse_cons, List.append_assoc]
      rfl

/-- Taking a program from the cache is noted, and nothing else is noted then. -/
theorem journal_parse_iff :
    (i.parse source).2.journal = cacheHit source :: i.journal ↔ i.isCached source = true := by
  have hjournal := journal_foldl_note (Grammar.parseSource source i.tracing).trace i
  rw [parse, isCached]
  cases i.cache.find? source with
  | some found => exact ⟨fun _ => rfl, fun _ => rfl⟩
  | none =>
      refine iff_of_false (fun hnoted => ?_) (by simp)
      dsimp only at hnoted
      split at hnoted
      · have hhit := hjournal.symm.trans hnoted
        cases hrecords : ((Grammar.parseSource source i.tracing).trace.map
            Grammar.TraceNote.record).reverse with
        | nil =>
            rw [hrecords] at hhit
            exact List.cons_ne_self _ _ hhit.symm
        | cons record records =>
            rw [hrecords] at hhit
            have hmem : record ∈ (Grammar.parseSource source i.tracing).trace.map
                Grammar.TraceNote.record := by
              rw [← List.mem_reverse, hrecords]
              exact .head _
            obtain ⟨n, -, rfl⟩ := List.mem_map.mp hmem
            cases congrArg Journal.Record.component (List.cons.inj hhit).1
      · cases congrArg Journal.Record.severity (List.cons.inj hnoted).1

end Journal

/-- What the cache holds, for any sequence of requests. A source is taken from the cache, and noted
to be, if it has been asked for before, has no faults, and since it was last asked for fewer other
sources without faults than there is room for have been asked for. There are as many programs in the
cache as sources without faults have been asked for, up to its capacity. A request that is answered
with faults leaves the cache, with the order of its entries, and the heap as they were. -/
theorem cache_holds_latest (settings : Settings) (bound capacity : Nat) (hcapacity : 0 < capacity)
    (requests : List Request) (i : Interpreter)
    (hserved : (fresh { settings with parseCache := capacity } bound).serveAll requests = some i) :
    let asked := requests.map Request.source
    (∀ source, i.isCached source = true ↔
        ∃ before since, asked = before ++ source :: since ∧ source ∉ since ∧
          isFaultless source = true ∧ (since.filter isFaultless).dedup.length < capacity) ∧
      (∀ source, (i.parse source).2.journal = cacheHit source :: i.journal ↔
        i.isCached source = true) ∧
      i.cache.size = Nat.min capacity (asked.filter isFaultless).dedup.length ∧
      ∀ request answer i', i.serve request = some (answer, i') → answer.faults?.isSome = true →
        i'.cache = i.cache ∧ i'.heap = i.heap := by
  intro asked
  have hholds := (holdsLatest_fresh settings capacity bound).serveAll hcapacity hserved
  rw [List.nil_append] at hholds
  refine ⟨fun source => ?_, fun source => journal_parse_iff, ?_, ?_⟩
  · rw [isCached_iff, hholds.sources_eq, mem_take_recency_filter]
  · rw [ProgramCache.size, ← List.length_map Prod.fst]
    change i.cache.sources.length = _
    rw [hholds.sources_eq, List.length_take, length_recency]
  · intro request answer i' hserve hfaults
    obtain ⟨rfl, faults, hparse⟩ := (serve_cases hserve).2 hfaults
    exact parse_of_error hparse

/-- With room for two programs, the third one pushes out the one that was not asked for again, and a
source with a fault counts for nothing. -/
theorem cache_holds_latest_pushed_out :
    let requests : List Request := [.parse (utf8 "1"), .eval (utf8 "let a = 2"), .parse (utf8 "("),
      .eval (utf8 "1"), .parse (utf8 "3")]
    ∃ i, (fresh { Settings.defaults with parseCache := (2 : Nat) } 20).serveAll requests = some i ∧
      i.isCached (utf8 "1") = true ∧ i.isCached (utf8 "let a = 2") = false ∧ i.cache.size = 2 := by
  intro requests
  have hserved : ((fresh { Settings.defaults with parseCache := (2 : Nat) } 20).serveAll
      requests).isSome = true := by decide +kernel
  obtain ⟨i, hi⟩ := Option.isSome_iff_exists.mp hserved
  obtain ⟨hcached, -, hsize, -⟩ :=
    cache_holds_latest .defaults 20 2 Nat.zero_lt_two requests i hi
  refine ⟨i, hi, ?_, ?_, ?_⟩
  · rw [hcached]
    exact ⟨[utf8 "1", utf8 "let a = 2", utf8 "("], [utf8 "3"], rfl, by decide, by decide, by decide⟩
  · rw [Bool.eq_false_iff, Ne, hcached, ← mem_take_recency_filter]
    decide
  · rw [hsize]
    decide

end Monkey.Interpreter
