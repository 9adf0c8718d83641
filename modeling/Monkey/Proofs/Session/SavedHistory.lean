import Monkey.Proofs.Files
import Monkey.Proofs.Session.Drivers

/-!
# What is left of a history

At its end an interactive session replaces the file of the history. What stands there then is what
was read from the file at the start, followed by the inputs of the session, and of both together the
newest. Two things cut the reading short: a line that is not well-formed and one that does not fit
into the window. From there on nothing is read, and the rest of the file is lost at the end of the
session.

The cut to the newest entries is made after every single entry. That makes no difference to one cut
at the end (`trimmed_trimmed_append`), so that all the rest can be said of histories without bound.
-/

namespace Monkey.Session

namespace History

/-- Of entries, those that differ from the one before them. The first one comes after `last`. -/
def newEntries (last : Option Bytes) : List Bytes → List Bytes
  | [] => []
  | entry :: entries =>
    if last = some entry then newEntries last entries else entry :: newEntries (some entry) entries

/-- The lines of a file that are read: those before one that is not well-formed or does not fit. -/
def readable (content : Bytes) : List Bytes :=
  ((pieces content).takeWhile fun piece => !piece.goesOn && Text.isWellFormed piece.text).map
    Piece.text

theorem trimmed_trimmed_append (h more : History) :
    trimmed (trimmed h ++ more) = trimmed (h ++ more) := by
  have hdrop : trimmed h ++ more = (h ++ more).drop (h.length - limit) :=
    (List.drop_append_of_le_length (Nat.sub_le _ _)).symm
  have hcount : h.length - limit + (h.length + more.length - (h.length - limit) - limit) =
      h.length + more.length - limit := by omega
  rw [hdrop, trimmed, trimmed, List.drop_drop, List.length_drop, List.length_append, hcount]

theorem trimmed_nil : trimmed [] = [] := List.drop_nil

theorem getLast?_trimmed (h : History) : (trimmed h).getLast? = h.getLast? := by
  rw [trimmed, List.getLast?_drop]
  split
  · next hlength =>
      have hempty : h = [] := by
        rw [← List.length_eq_zero_iff]
        simp only [limit] at hlength
        omega
      rw [hempty]
      rfl
  · rfl

theorem foldl_append_trimmed (h : History) (entries : List Bytes) :
    entries.foldl append (trimmed h) = trimmed (h ++ newEntries h.getLast? entries) := by
  induction entries generalizing h with
  | nil => simp [newEntries]
  | cons entry entries ih =>
      rw [List.foldl_cons, append, getLast?_trimmed, newEntries]
      split
      · exact ih h
      · rw [add, trimmed_trimmed_append, ih, List.getLast?_concat, List.append_assoc]
        rfl

theorem readOnto_trimmed (h : History) (count : Nat) (read : List Piece) :
    (readOnto (trimmed h) count read).1 = trimmed (h ++
      (read.takeWhile fun piece => !piece.goesOn && Text.isWellFormed piece.text).map
        Piece.text) := by
  induction read generalizing h count with
  | nil => simp [readOnto]
  | cons piece read ih =>
      rw [readOnto]
      cases hgoes : piece.goesOn with
      | true => simp [hgoes]
      | false =>
          cases hwell : Text.isWellFormed piece.text with
          | false => simp [hgoes, hwell]
          | true => simp [hgoes, hwell, add, trimmed_trimmed_append, ih]

theorem load_eq (find : Files.Finder) (path : Bytes) :
    (load find path).1 = trimmed (readable ((find.read path).toOption.getD [])) := by
  unfold load Files.Finder.read
  rcases find path with fault | content | _
  · exact trimmed_nil.symm
  · have hread := readOnto_trimmed [] 0 (pieces content)
    rw [trimmed_nil, List.nil_append] at hread
    exact hread
  · exact trimmed_nil.symm

theorem readable_eq {content : Bytes} (hfits : Fits Piece.windowSize content) :
    readable content = (linesOf content).takeWhile Text.isWellFormed := by
  rw [readable, pieces_eq hfits, List.takeWhile_map, List.map_map]
  exact List.map_id' _

end History

namespace Console

theorem inputs_display (c : Console) (e : Event) :
    (c.display e).inputs = c.inputs ++ e.input?.toList := by
  rw [inputs, inputs, display, List.reverse_cons, List.filterMap_append]
  cases e <;> rfl

theorem inputs_ask (c : Console) : c.ask.inputs = c.inputs :=
  (inputs_display c _).trans (List.append_nil _)

theorem inputs_of_accept {c c' : Console} {line : Bytes} {text? : Option Bytes}
    (h : c.accept line = (c', text?)) : c'.inputs = c.inputs := by
  unfold accept at h
  dsimp only at h
  split at h <;> cases h <;> rfl

theorem inputs_of_submit {c c' : Console} {text : Bytes} {quits : Bool}
    (h : c.submit text = some (c', quits)) : c'.inputs = c.inputs ++ [text] := by
  unfold submit at h
  split at h
  · next reply hreply =>
      cases h
      exact inputs_display _ (.reply text reply.output)
  · cases h

end Console

namespace Interactive

open Console

/-- The history holds the given one and after it the inputs that were handed over. -/
def Recorded (first : History) (s : Interactive) : Prop :=
  s.history = (s.console.inputs.map History.entryOf).foldl History.append first

variable {first : History} {s s' : Interactive}

theorem Recorded.of_inputs (h : Recorded first s) {c : Console}
    (hinputs : c.inputs = s.console.inputs) : Recorded first { s with console := c } := by
  unfold Recorded
  rw [hinputs]
  exact h

/-- An input that is handed over is entered, and nothing else is. -/
theorem Recorded.of_accept (h : Recorded first s) {line : Bytes} {quits : Bool}
    (haccept : s.accept line = some (s', quits)) : Recorded first s' := by
  unfold accept at haccept
  split at haccept
  · next c hline =>
      cases haccept
      exact h.of_inputs (inputs_of_accept hline)
  · next c text hline =>
      have hc := inputs_of_accept hline
      split at haccept
      · cases haccept
        exact h.of_inputs hc
      · split at haccept
        · cases haccept
        · next c' ended hsubmit =>
            cases haccept
            unfold Recorded
            rw [inputs_of_submit hsubmit, hc, List.map_append, List.foldl_append, ← h]
            rfl

theorem Recorded.of_play (h : Recorded first s) {lines : List Bytes}
    (hplay : s.play lines = some s') : Recorded first s' := by
  induction lines generalizing s with
  | nil =>
      cases hplay
      exact h.of_inputs ((inputs_display _ .newline).trans
        ((List.append_nil _).trans (inputs_ask s.console)))
  | cons line lines ih =>
      have hask := h.of_inputs (inputs_ask s.console)
      rw [play] at hplay
      split at hplay
      · cases hplay
      · next s₁ haccept =>
          cases hplay
          exact hask.of_accept haccept
      · next s₁ haccept => exact ih (hask.of_accept haccept) hplay

theorem recorded_start (s : Session) (find : Files.Finder) {path : Bytes} (hpath : path ≠ []) :
    Recorded (History.load find path).1 (start s find path) := by
  unfold start
  rw [if_neg (by simpa using hpath)]
  split <;> next hload => rw [hload]; rfl

theorem inputs_save (s : Interactive) (files : Files) (path : Bytes) :
    (s.save files path).1.console.inputs = s.console.inputs := by
  unfold save
  split
  · rfl
  · split <;> rfl

/-- A history that is saved is in its file, if the file can be opened. -/
theorem find_of_save {files opened : Files} {path : Bytes}
    (hopen : files.write path [] = .ok opened) (s : Interactive) :
    (s.save files path).2.find path = .ok (.file s.history.text) := by
  obtain ⟨written, hwrite⟩ := Files.exists_write hopen s.history.text
  rw [save, if_neg (by simpa using Files.path_ne_nil_of_write hopen), hwrite]
  exact Files.find_of_write hwrite

/-- The session that is saved at the end of a run. -/
theorem exists_recorded_of_run {s : Session} {files : Files} {path input : Bytes} {e : Ending}
    (hpath : path ≠ []) (hrun : run s files path input = some e) :
    ∃ played, Recorded (History.load files.find path).1 played ∧
      e.files = (played.save files path).2 ∧
      e.interactive.console.inputs = played.console.inputs := by
  have hstart := recorded_start s files.find hpath
  rw [run_eq_runLines, runLines] at hrun
  obtain ⟨played, hplayed, rfl⟩ := Option.map_eq_some_iff.mp hrun
  refine ⟨played, ?_, rfl, inputs_save played files path⟩
  split at hplayed
  · cases hplayed
    exact hstart
  · exact hstart.of_play hplayed

/-- An interactive session leaves in the file of its history what could be read from there and then
its inputs, without those that repeat the one before, and of all that the newest. If no line is too
long for the window, what could be read are the lines before the first one that is not well-formed,
and so all lines if and only if each of them is well-formed. -/
theorem run_saves (s : Session) (files : Files) (path input : Bytes) {e : Ending} {opened : Files}
    {content : Bytes} (hopen : files.write path [] = .ok opened)
    (hrun : run s files path input = some e)
    (hcontent : (files.find.read path).toOption.getD [] = content) :
    e.files.find path = .ok (.file (History.text (History.trimmed (History.readable content ++
        History.newEntries (History.readable content).getLast?
          (e.interactive.console.inputs.map History.entryOf))))) ∧
      (Fits Piece.windowSize content →
        History.readable content = (linesOf content).takeWhile Text.isWellFormed ∧
        (History.readable content = linesOf content ↔
          ∀ line ∈ linesOf content, Text.isWellFormed line = true)) := by
  refine ⟨?_, fun hfits => ?_⟩
  · obtain ⟨played, hrecorded, hfiles, hinputs⟩ :=
      exists_recorded_of_run (Files.path_ne_nil_of_write hopen) hrun
    have hhistory : played.history = _ := hrecorded
    rw [History.load_eq, hcontent, History.foldl_append_trimmed] at hhistory
    rw [hfiles, find_of_save hopen, hhistory, hinputs]
  · rw [History.readable_eq hfits]
    exact ⟨rfl, List.takeWhile_eq_self_iff⟩

/-- Of the inputs, the first one repeats the last line of the file, and the third one the second. -/
theorem run_saves_without_repetition :
    let s := ofSettings .defaults false (.ofSettings .defaults)
    let path := utf8 "history"
    let content := utf8 "a\r\n1\n"
    let files : Files := ⟨[(path, content)]⟩
    files.write path [] = .ok ⟨[(path, [])]⟩ ∧ Fits Piece.windowSize content ∧
      History.readable content = linesOf content ∧
      ∃ e, run s files path (utf8 "1\n(\n2)\n(\n2)\n\n:quit\n3\n") = some e ∧
        e.files.find path = .ok (.file (utf8 "a\n1\n( 2)\n:quit\n")) := by
  intro s path content files
  have hopen : files.write path [] = .ok ⟨[(path, [])]⟩ := by rfl
  have hfits : Fits Piece.windowSize content := fits_of_length_lt (by decide)
  have hcontent : (files.find.read path).toOption.getD [] = content := by rfl
  have hinputs : (run s files path (utf8 "1\n(\n2)\n(\n2)\n\n:quit\n3\n")).map
      (fun e => e.interactive.console.inputs) =
      some [utf8 "1", utf8 "(\n2)", utf8 "(\n2)", utf8 ":quit"] := by decide +kernel
  obtain ⟨e, hrun, hinputs⟩ := Option.map_eq_some_iff.mp hinputs
  obtain ⟨hsaved, hread⟩ := run_saves s files path _ hopen hrun hcontent
  rw [hinputs] at hsaved
  have htext : History.text (History.trimmed (History.readable content ++
      History.newEntries (History.readable content).getLast?
        ([utf8 "1", utf8 "(\n2)", utf8 "(\n2)", utf8 ":quit"].map History.entryOf))) =
      utf8 "a\n1\n( 2)\n:quit\n" := by decide +kernel
  rw [htext] at hsaved
  exact ⟨hopen, hfits, (hread hfits).2.mpr (by decide +kernel), e, hrun, hsaved⟩

/-- The second of three lines is not well-formed. After a session without any input it is lost, and
the third one with it. -/
theorem run_loses_lines :
    let s := ofSettings .defaults false (.ofSettings .defaults)
    let path := utf8 "history"
    let content : Bytes := [0x61, 0x0a, 0xff, 0x0a, 0x62, 0x0a]
    linesOf content = [[0x61], [0xff], [0x62]] ∧
      (run s ⟨[(path, content)]⟩ path []).map (fun e => e.files.entries) =
        some [(path, [0x61, 0x0a])] := by
  decide +kernel

end Interactive

end Monkey.Session
