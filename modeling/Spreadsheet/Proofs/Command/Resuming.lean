import Spreadsheet.Command.Run
import Spreadsheet.Proofs.Files
import Spreadsheet.Proofs.Session
import Spreadsheet.Proofs.Sheet.Circularity
import Spreadsheet.Proofs.Sheet.Saving

/-! Calculations resumed from the session that they saved. A session can be named for saving by texts that
do not name it for loading: those that end in a slash or a single point, and the empty one; and a special
file keeps nothing of it. Under the name of any other file, or of none yet, a calculation that is resumed
prints what was printed before, and saves the same text. -/
namespace Spreadsheet

/-- Whether a text can name a file: it is not empty, and no slash or single point ends it. -/
def Path.namesFile (s : String) : Bool := !s.isEmpty && !(Path.pieces s).getLast?.any Path.isIdle

namespace Command

variable {files made : Files} {c : Calculation} {name : String} {o : Outcome}

/-- The calculation of a saved session, with the same settings and in the same form. -/
def Calculation.resumed (c : Calculation) (name : String) (saveTo : Option String) : Calculation :=
  { c with assignments := [], session := some name, saveTo }

/-! ## Names -/

theorem written?_of_namesFile (h : Path.namesFile name) : files.written? name = files.item? (.ofText name) := by
  unfold Path.namesFile at h
  rw [Bool.and_eq_true, Bool.not_eq_true', Bool.not_eq_true'] at h
  unfold Files.written?
  rw [if_neg (by rw [h.1]; exact Bool.false_ne_true), h.2]
  cases files.item? (.ofText name) <;> rfl

theorem written?_of_not_namesFile (h : Path.namesFile name = false) :
    ∀ item, files.written? name = some item → item = .directory := by
  intro item hitem
  unfold Path.namesFile at h
  unfold Files.written? at hitem
  split at hitem
  · contradiction
  · rename_i hsome
    dsimp only at hitem
    rw [Option.filter_eq_some_iff] at hitem
    rw [Bool.not_eq_true] at hsome
    rw [hsome, Bool.not_false, Bool.true_and, Bool.not_eq_false'] at h
    simpa [h] using hitem.2

/-- A session that is named so that it cannot be a file is not loaded. -/
theorem resumed_of_not_namesFile (h : Path.namesFile name = false) (saveTo : Option String) :
    calculate files (c.resumed name saveTo) = .stopped files .usage := by
  have hunfit : pathsFit files (c.resumed name saveTo) = false := by
    unfold pathsFit Calculation.resumed
    dsimp only
    rw [Option.all_some]
    cases hitem : files.written? name with
    | none => rfl
    | some item =>
      rw [written?_of_not_namesFile h item hitem]
      rfl
  unfold calculate
  rw [hunfit]
  rfl

/-! ## Calculations that are not refused -/

/-- What a calculation goes through up to its report. -/
structure Calculates (files : Files) (c : Calculation) (made : Files) (journal : Option Path)
    (limits : Limits) (given : List (String × String)) (found : List Diagnostic) : Prop where
  fits : pathsFit files c
  settings : ∃ settings, Command.settings files c = .ok settings ∧
    openJournal files settings = .ok (made, journal) ∧ settings.limits = .ok limits
  items : Command.items made c = .ok (Sheet.spelled given)
  answer : ((Sheet.new limits).load (Sheet.spelled given)).answer = .ok found

/-- A calculation of cells, with their diagnostics. -/
def loaded (limits : Limits) (given : List (String × String)) (found : List Diagnostic) :
    Sheet.Edited (List Diagnostic) :=
  let edited := (Sheet.new limits).load (Sheet.spelled given)
  ⟨edited.sheet, edited.events, found⟩

theorem sessionCells_of_read {text : String} {cells : List (String × String)}
    (htext : files.text? (.ofText name) = some text) (hread : Session.read text = .ok cells) :
    sessionCells files (some name) = .ok cells := by
  unfold sessionCells
  dsimp only
  rw [htext, Option.map_some, hread, Option.getD_some]

theorem exists_items {items : List (Address.Given × Datum)} (h : Command.items files c = .ok items) :
    ∃ given : List (String × String), items = Sheet.spelled given := by
  unfold Command.items at h
  obtain ⟨cells, -, hrest⟩ := bind_eq_ok.mp h
  obtain ⟨assigned, -, hitems⟩ := bind_eq_ok.mp hrest
  cases hitems
  exact ⟨cells ++ assigned, rfl⟩

theorem exists_calculates (h : (calculate files c).stop = none) :
    ∃ made journal limits given found, Calculates files c made journal limits given found := by
  unfold calculate at h
  split at h
  · contradiction
  rename_i hfits
  split at h
  · contradiction
  rename_i settings hsettings
  split at h
  · contradiction
  rename_i made journal hjournal
  split at h
  · contradiction
  · contradiction
  rename_i limits items hlimits hitems
  dsimp only at h
  split at h
  · contradiction
  rename_i found hfound
  obtain ⟨given, rfl⟩ := exists_items hitems
  rw [Bool.not_eq_true', Bool.not_eq_false] at hfits
  exact ⟨made, journal, limits, given, found, hfits, ⟨settings, hsettings, hjournal, hlimits⟩, hitems, hfound⟩

theorem Calculates.calculate_eq {journal : Option Path} {limits : Limits} {given : List (String × String)}
    {found : List Diagnostic} (h : Calculates files c made journal limits given found) :
    calculate files c = finish made c journal (loaded limits given found) := by
  obtain ⟨settings, hsettings, hjournal, hlimits⟩ := h.settings
  unfold Command.calculate
  rw [h.fits, hsettings, Bool.not_true, if_neg Bool.false_ne_true]
  dsimp only
  rw [hjournal]
  dsimp only
  rw [hlimits, h.items]
  dsimp only
  rw [h.answer]
  rfl

/-! ## Files afterwards -/

theorem keeps_journaled (o : Outcome) (time : String) (duration : Option Datum) :
    Files.Keeps o.files (o.journaled time duration) := by
  unfold Outcome.journaled
  split
  · exact .refl o.files
  · split
    · exact .refl o.files
    · exact Files.keeps_attempt _ _ _

theorem kind?_journaled (o : Outcome) (time time' : String) (duration duration' : Option Datum)
    (r : Path) : (o.journaled time duration).kind? r = (o.journaled time' duration').kind? r := by
  unfold Outcome.journaled
  split
  · rfl
  · split
    · rfl
    · exact Files.kind?_attempt ..

theorem ordinary_journaled {p : Path} (h : o.files.Ordinary p) (time : String)
    (duration : Option Datum) : (o.journaled time duration).Ordinary p := by
  unfold Outcome.journaled
  split
  · exact h
  · split
    · exact h
    · exact Files.ordinary_attempt h _ _

/-- What can be saved without regard to the journal's text is there afterwards. -/
theorem write_filesAt {p : Path} {text : String} {written : Files} (hsaved : o.saved = some (p, text))
    (hwritten : (o.journaled "" none).write p text = .ok written) (time : String)
    (duration : Option Datum) :
    (o.journaled time duration).write p text = .ok (o.filesAt time duration) := by
  obtain ⟨after, hafter⟩ := Files.write_congr (kind?_journaled o "" time none duration) hwritten text
  unfold Outcome.filesAt
  rw [hsaved]
  dsimp only
  rw [hafter]
  rfl

theorem keeps_filesAt (o : Outcome) (time : String) (duration : Option Datum) :
    Files.Keeps o.files (o.filesAt time duration) := by
  have hjournaled := keeps_journaled o time duration
  unfold Outcome.filesAt
  split
  · exact hjournaled
  · exact hjournaled.trans (Files.keeps_attempt _ _ _)

/-! ## Reports -/

/-- A calculation before its report, with what it saves. -/
def unreported (made : Files) (journal : Option Path) (loaded : Sheet.Edited (List Diagnostic))
    (saved : Option (Path × String)) : Outcome := ⟨none, "", "", made, journal, loaded.events, saved⟩

/-- What a report prints depends on the form asked for, the sheet and its diagnostics. -/
theorem report_congr {c c' : Calculation} (h : c.asJson = c'.asJson) (s : Sheet)
    (diagnostics : List Diagnostic) (before before' : Outcome) :
    (report c s diagnostics before).out = (report c' s diagnostics before').out ∧
      (report c s diagnostics before).err = (report c' s diagnostics before').err ∧
      (report c s diagnostics before).stop = (report c' s diagnostics before').stop := by
  unfold report
  rw [h]
  exact ⟨rfl, rfl, rfl⟩

theorem untilFailure_ok {ε α : Type} (found : List α) :
    untilFailure (found.map (Except.ok : α → Except ε α)) = (found, none) := by
  induction found with
  | nil => rfl
  | cons a found ih =>
    rw [List.map_cons, untilFailure, ih]

/-- A report on cells that can all be shown has a line for each. -/
theorem textReport_of_display {s : Sheet} {shown : Address × Cell → String}
    (h : ∀ item ∈ s.cells.toList, item.2.display s.precision = .ok (shown item)) :
    textReport s = (String.join (s.cells.toList.map fun item => s!"{item.1}\t" ++ shown item ++ "\n"), none) := by
  have hlines : (s.cells.toList.map fun item =>
      (item.2.display s.precision).map fun shown => s!"{item.1}\t" ++ shown ++ "\n") =
        (s.cells.toList.map fun item => s!"{item.1}\t" ++ shown item ++ "\n").map .ok := by
    rw [List.map_map]
    refine List.map_congr_left fun item hitem => ?_
    rw [h item hitem]
    rfl
  unfold textReport
  rw [hlines, untilFailure_ok]

theorem textReport_of_finishing {s : Sheet} (hs : s.Finishing) : (textReport s).2 = none := by
  have hshown : ∀ item : Address × Cell, ∃ text, item ∈ s.cells.toList →
      item.2.display s.precision = .ok text := by
    rintro ⟨a, c⟩
    by_cases hitem : (a, c) ∈ s.cells.toList
    · have hc := Std.ExtTreeMap.mem_toList_iff_getElem?_eq_some.mp hitem
      have hplace := Sheet.locate_given (hs.formed.inside a _ (Sheet.form?_of_getElem? hc))
      obtain ⟨text, htext⟩ := hs.exists_display hplace
      rw [Sheet.display_of_locate hplace, hc] at htext
      refine ⟨text, fun _ => ?_⟩
      dsimp only at htext ⊢
      cases hdisplay : c.display s.precision with
      | error fault =>
        rw [hdisplay] at htext
        cases htext
      | ok found =>
        rw [hdisplay] at htext
        cases htext
        rfl
    · exact ⟨"", fun h => absurd h hitem⟩
  choose shown hshown using hshown
  rw [textReport_of_display hshown]

theorem finish_of_saveTo {journal : Option Path} {loaded : Sheet.Edited (List Diagnostic)}
    (hsave : c.saveTo = some name) (hname : name ≠ "") :
    finish made c journal loaded =
      match ((unreported made journal loaded none).journaled "" none).write (.ofText name)
        (Session.text loaded.sheet.dump) with
      | .ok _ => report c loaded.sheet loaded.answer (unreported made journal loaded
          (some (.ofText name, Session.text loaded.sheet.dump)))
      | .error fault => { unreported made journal loaded none with stop := some (.unsaved name fault) } := by
  unfold finish
  dsimp only
  split
  · rename_i hnone
    rw [hsave] at hnone
    contradiction
  · rename_i hempty
    rw [hsave] at hempty
    exact absurd (Option.some.inj hempty) hname
  · rename_i path _ hpath
    rw [hsave] at hpath
    cases hpath
    rfl

theorem finish_of_no_name {journal : Option Path} {loaded : Sheet.Edited (List Diagnostic)}
    (hsave : c.saveTo = none ∨ c.saveTo = some "") :
    finish made c journal loaded =
      report c loaded.sheet loaded.answer (unreported made journal loaded none) := by
  unfold finish
  rcases hsave with hsave | hsave <;> rw [hsave] <;> rfl

/-! ## Calculations resumed -/

/-- A log directory that was made is there for the calculation that is resumed. -/
theorem openJournal_of_keeps {settings : Settings} {journal : Option Path} {after : Files}
    (h : openJournal files settings = .ok (made, journal)) (hkeeps : Files.Keeps made after) :
    openJournal after settings = .ok (after, journal) ∧ Files.Keeps files made := by
  unfold openJournal at h ⊢
  split at h
  · cases h
    exact ⟨rfl, .refl files⟩
  · rename_i directory _
    dsimp only at h ⊢
    split at h
    · rename_i made' hmade
      cases h
      obtain ⟨hkept, hdirectory⟩ := Files.keeps_makeDirectory hmade
      rw [Files.makeDirectory_of_isDirectory (hkeeps.isDirectory hdirectory)]
      exact ⟨rfl, hkept⟩
    · contradiction
  · contradiction

theorem ne_empty_of_namesFile (h : Path.namesFile name) : name ≠ "" := by
  rintro rfl
  exact absurd h (by decide)

/-- A calculation that comes to its end has reported what it calculated, and its session can be written
where it is to be saved. -/
theorem Calculates.report_of_stop {journal : Option Path} {limits : Limits}
    {given : List (String × String)} {found : List Diagnostic}
    (h : Calculates files c made journal limits given found) (hstop : (calculate files c).stop = none) :
    let l := loaded limits given found
    let text := Session.text l.sheet.dump
    (∃ before, before.files = made ∧ calculate files c = report c l.sheet found before) ∧
      ∀ name, c.saveTo = some name → name ≠ "" → (calculate files c).saved = some (.ofText name, text) ∧
        ∃ written, ((calculate files c).journaled "" none).write (.ofText name) text = .ok written := by
  intro l text
  have hunsaved : c.saveTo = none ∨ c.saveTo = some "" →
      calculate files c = report c l.sheet found (unreported made journal l none) := by
    intro hsave
    rw [h.calculate_eq, finish_of_no_name hsave]
    rfl
  have hsaved : ∀ name, c.saveTo = some name → name ≠ "" →
      calculate files c = report c l.sheet found (unreported made journal l (some (.ofText name, text))) ∧
        ∃ written, ((calculate files c).journaled "" none).write (.ofText name) text = .ok written := by
    intro name hsave hname
    rw [h.calculate_eq, finish_of_saveTo hsave hname] at hstop ⊢
    cases hwrite : ((unreported made journal l none).journaled "" none).write (.ofText name) text with
    | ok written => exact ⟨rfl, written, hwrite⟩
    | error fault =>
      rw [hwrite] at hstop
      contradiction
  constructor
  · cases hsave : c.saveTo with
    | none => exact ⟨_, rfl, hunsaved (.inl hsave)⟩
    | some name =>
      rcases eq_or_ne name "" with rfl | hname
      · exact ⟨_, rfl, hunsaved (.inr hsave)⟩
      · exact ⟨_, rfl, (hsaved name hsave hname).1⟩
  · intro name hsave hname
    obtain ⟨heq, hwritten⟩ := hsaved name hsave hname
    exact ⟨congrArg Outcome.saved heq, hwritten⟩

/-- A calculation that saves nothing, or saves where there is something to read, comes to its report. -/
theorem Calculates.exists_report {journal : Option Path} {limits : Limits}
    {given : List (String × String)} {found : List Diagnostic}
    (h : Calculates files c made journal limits given found)
    (hsave : ∀ name, c.saveTo = some name → name ≠ "" ∧ ∃ text, made.text? (.ofText name) = some text) :
    ∃ before, calculate files c = report c (loaded limits given found).sheet found before := by
  rw [h.calculate_eq]
  cases hname : c.saveTo with
  | none =>
    rw [finish_of_no_name (.inl hname)]
    exact ⟨_, rfl⟩
  | some name =>
    obtain ⟨hne, text, htext⟩ := hsave name hname
    have hkeeps := keeps_journaled (unreported made journal (loaded limits given found) none) "" none
    obtain ⟨item, hitem, hfile⟩ := Files.exists_item_of_text? htext
    obtain ⟨written, hwritten⟩ := hkeeps.write hitem hfile
      (Session.text (loaded limits given found).sheet.dump)
    rw [finish_of_saveTo hname hne, hwritten]
    exact ⟨_, rfl⟩

/-- A calculation whose session was saved under a name, and what the files hold afterwards. -/
structure Saves (files : Files) (c : Calculation) (name : String) (after made : Files)
    (journal : Option Path) (limits : Limits) (given : List (String × String))
    (found : List Diagnostic) : Prop where
  calculates : Calculates files c made journal limits given found
  named : Path.namesFile name
  keeps : Files.Keeps made after
  item : after.item? (.ofText name) = some (.text (Session.text (loaded limits given found).sheet.dump))
  settings : Command.settings after c = Command.settings files c

theorem saveTo_of_pathsFit (h : pathsFit files c) :
    c.saveTo.all fun s => files.written? s != some .directory := by
  unfold pathsFit at h
  simp only [Bool.and_eq_true] at h
  exact h.1.2

namespace Saves

variable {journal : Option Path} {limits : Limits} {given : List (String × String)}
  {found : List Diagnostic} {after : Files} {saveTo : Option String}

theorem text (h : Saves files c name after made journal limits given found) :
    after.text? (.ofText name) = some (Session.text (loaded limits given found).sheet.dump) := by
  unfold Files.text?
  rw [h.item]

/-- A calculation that is resumed goes through the same as the one before. -/
theorem resumed (h : Saves files c name after made journal limits given found)
    (hsaveTo : saveTo.all fun s => after.written? s != some .directory) :
    let again := (loaded limits given found).sheet.saved
    Calculates after (c.resumed name saveTo) after journal limits again found ∧
      (loaded limits again found).sheet = (loaded limits given found).sheet := by
  intro again
  obtain ⟨settings, hread, hjournal, hlimits⟩ := h.calculates.settings
  obtain ⟨hjournal', hkept⟩ := openJournal_of_keeps hjournal h.keeps
  obtain ⟨hspellable, hsheet, hanswer⟩ := Sheet.load_saved limits given h.calculates.answer
  have hcells : Session.read (Session.text (loaded limits given found).sheet.dump) = .ok again :=
    Session.read_text hspellable (Sheet.nodup_dump _)
  refine ⟨⟨?_, ⟨settings, h.settings.trans hread, hjournal', hlimits⟩, ?_,
    hanswer.trans h.calculates.answer⟩, hsheet⟩
  · have hfits := h.calculates.fits
    unfold pathsFit at hfits ⊢
    simp only [Bool.and_eq_true] at hfits ⊢
    refine ⟨⟨?_, hsaveTo⟩, ?_⟩
    · unfold Calculation.resumed
      rw [Option.all_some, written?_of_namesFile h.named, h.item]
      rfl
    · have hpaths := hfits.2
      unfold Calculation.resumed
      cases hpath : c.settings with
      | none => rfl
      | some path =>
        rw [hpath, Option.all_some] at hpaths
        exact (hkept.trans h.keeps).written? hpaths
  · unfold Command.items Calculation.resumed
    dsimp only
    rw [sessionCells_of_read h.text hcells]
    change Except.ok ((again ++ []).map _) = _
    rw [List.append_nil]
    rfl

/-- A calculation that is resumed without saving, or to save where its session is, reports the same
sheet. -/
theorem exists_report (h : Saves files c name after made journal limits given found)
    (hsaveTo : saveTo = none ∨ saveTo = some name) : ∃ before,
      calculate after (c.resumed name saveTo) =
        report (c.resumed name saveTo) (loaded limits given found).sheet found before := by
  have hfits : saveTo.all fun s => after.written? s != some .directory := by
    rcases hsaveTo with rfl | rfl
    · rfl
    · rw [Option.all_some, written?_of_namesFile h.named, h.item]
      rfl
  obtain ⟨hagain, hsheet⟩ := h.resumed hfits
  rw [← hsheet]
  refine hagain.exists_report fun other hother => ?_
  rcases hsaveTo with rfl | rfl
  · cases hother
  · cases hother
    exact ⟨ne_empty_of_namesFile h.named, _, h.text⟩

/-- A calculation that is resumed and comes to its end reports the same sheet and saves the same text. -/
theorem report_of_stop (h : Saves files c name after made journal limits given found)
    (hstop : (calculate after (c.resumed name saveTo)).stop = none) :
    let again := calculate after (c.resumed name saveTo)
    let text := Session.text (loaded limits given found).sheet.dump
    (∃ before, before.files = after ∧
        again = report (c.resumed name saveTo) (loaded limits given found).sheet found before) ∧
      ∀ other, saveTo = some other → other ≠ "" → again.saved = some (.ofText other, text) ∧
        ∃ written, (again.journaled "" none).write (.ofText other) text = .ok written := by
  obtain ⟨_, _, _, _, _, hfits⟩ := exists_calculates hstop
  obtain ⟨hagain, hsheet⟩ := h.resumed (saveTo_of_pathsFit hfits.fits)
  obtain ⟨⟨before, hbefore, hreport⟩, hsaves⟩ := hagain.report_of_stop hstop
  rw [hsheet] at hreport hsaves
  exact ⟨⟨before, hbefore, hreport⟩, hsaves⟩

end Saves

/-- A calculation that comes to its end and was to be saved under a name that can be a file's has saved
its session there, unless the file is a special one. -/
theorem exists_saves (hsave : c.saveTo = some name) (hname : Path.namesFile name)
    (hstop : (calculate files c).stop = none)
    (hordinary : (calculate files c).files.Ordinary (.ofText name)) (time : String)
    (duration : Option Datum)
    (hsettings : settings ((calculate files c).filesAt time duration) c = settings files c) :
    ∃ made journal limits given found,
      Saves files c name ((calculate files c).filesAt time duration) made journal limits given found ∧
        (calculate files c).saved =
          some (.ofText name, Session.text (loaded limits given found).sheet.dump) ∧
        ∃ before, calculate files c = report c (loaded limits given found).sheet found before := by
  obtain ⟨made, journal, limits, given, found, hcalculates⟩ := exists_calculates hstop
  obtain ⟨⟨before, hmade, ho⟩, hsaves⟩ := hcalculates.report_of_stop hstop
  obtain ⟨hsaved, written, hwritten⟩ := hsaves name hsave (ne_empty_of_namesFile hname)
  have hkeeps := keeps_filesAt (calculate files c) time duration
  rw [show (calculate files c).files = made from (congrArg Outcome.files ho).trans hmade] at hkeeps
  exact ⟨made, journal, limits, given, found, ⟨hcalculates, hname, hkeeps,
    Files.item?_write (write_filesAt hsaved hwritten time duration)
      (ordinary_journaled hordinary time duration), hsettings⟩, hsaved, before, ho⟩

/-! ## Calculations without a log -/

theorem Calculates.calculate_eq_report {limits : Limits} {given : List (String × String)}
    {found : List Diagnostic} {written : Files} (h : Calculates files c made none limits given found)
    (hsave : c.saveTo = some name) (hname : name ≠ "") (hwrite : made.write (.ofText name)
      (Session.text (loaded limits given found).sheet.dump) = .ok written) :
    let l := loaded limits given found
    calculate files c = report c l.sheet found
      (unreported made none l (some (.ofText name, Session.text l.sheet.dump))) := by
  have hjournaled : ∀ l, (unreported made none l none).journaled "" none = made := fun _ => rfl
  intro l
  rw [h.calculate_eq, finish_of_saveTo hsave hname, hjournaled, hwrite]
  rfl

theorem filesAt_report {c : Calculation} {s : Sheet} {found : List Diagnostic} {written : Files}
    {l : Sheet.Edited (List Diagnostic)} {p : Path} {text : String} (hwrite : made.write p text = .ok written)
    (time : String) (duration : Option Datum) :
    (report c s found (unreported made none l (some (p, text)))).filesAt time duration = written := by
  have hfiles : (report c s found (unreported made none l (some (p, text)))).filesAt time duration =
      (made.write p text).toOption.getD made := rfl
  rw [hfiles, hwrite]
  rfl

/-! ## Two cells that name each other -/

/-- The contents of a session and assignments: two cells that name each other, one that is emptied again,
and one that is given twice. -/
private def entered : List (String × String) :=
  [("A1", "=B1"), ("C1", "7"), ("B1", "=A1"), ("D1", "5"), ("D1", "6"), ("C1", "")]

private def circling : List (Address × String) :=
  [(⟨0, 0⟩, "=B1"), (⟨0, 1⟩, "=A1"), (⟨0, 2⟩, ""), (⟨0, 3⟩, "6")]

private def circuit : Diagnostic := ⟨⟨0, 1⟩, .circular [⟨0, 1⟩, ⟨0, 0⟩, ⟨0, 1⟩]⟩

private def oneWay : Sheet := (Sheet.new Sheet.standard).withFormula ⟨0, 0⟩ "=B1" (.cell ⟨0, 1⟩)

private def circle : Sheet :=
  { oneWay with
    cells := oneWay.cells.insert ⟨0, 1⟩ ⟨"=A1", .rejected .cycle, .known (.error .cycle)⟩ }

private theorem put_oneWay : (Sheet.Batch.start (Sheet.new Sheet.standard)).put (⟨0, 0⟩, "=B1") =
    .ok ⟨oneWay, {⟨0, 0⟩}, []⟩ := by
  have hparse : Formula.parse "=B1" = .ok (.cell ⟨0, 1⟩) := eq_ok_of_toOption (by decide +kernel)
  have hfree : (∅ : Graph).cyclePath? ⟨0, 0⟩ ((Formula.cell ⟨0, 1⟩).addresses
      (Sheet.new Sheet.standard).bounds) = none := by
    have htargets : ((Formula.cell ⟨0, 1⟩).addresses (Sheet.new Sheet.standard).bounds).toList =
      [⟨0, 1⟩] := by decide +kernel
    -- the search is unfolded step by step, since the kernel does not evaluate it
    unfold Graph.cyclePath?
    rw [if_neg (by decide +kernel), htargets, Graph.seek, Graph.seek, dif_neg (by decide +kernel),
      Graph.seek]
    rfl
  have hstage : (Sheet.Batch.start (Sheet.new Sheet.standard)).sheet.stage ⟨0, 0⟩ "=B1" = (oneWay, none) :=
    Sheet.stage_accepted hparse rfl hfree
  unfold Sheet.Batch.put
  dsimp only
  rw [if_neg (by decide +kernel), hstage]
  rfl

private theorem put_circle : (⟨oneWay, {⟨0, 0⟩}, []⟩ : Sheet.Batch).put (⟨0, 1⟩, "=A1") =
    .ok ⟨circle, ({⟨0, 0⟩} : AddressSet).insert ⟨0, 1⟩, [circuit]⟩ := by
  have hparse : Formula.parse "=A1" = .ok (.cell ⟨0, 0⟩) := eq_ok_of_toOption (by decide +kernel)
  have hpath : oneWay.graph.cyclePath? ⟨0, 1⟩ ((Formula.cell ⟨0, 0⟩).addresses oneWay.bounds) =
      some [⟨0, 1⟩, ⟨0, 0⟩, ⟨0, 1⟩] := by
    have htargets : ((Formula.cell ⟨0, 0⟩).addresses oneWay.bounds).toList = [⟨0, 0⟩] := by
      decide +kernel
    unfold Graph.cyclePath?
    rw [if_neg (by decide +kernel), htargets, Graph.seek, Graph.seek, dif_pos (by decide +kernel),
      if_pos (by decide +kernel)]
    rfl
  have hwritable : Address.isWritable ⟨0, 1⟩ = true := by decide +kernel
  unfold Sheet.Batch.put
  dsimp only
  rw [if_neg (by decide +kernel), Sheet.stage_circular_of_path hparse rfl hpath]
  dsimp only
  rw [Option.all_some, Rejection.isTellable_circular, hwritable]
  rfl

private theorem putAll_circling : ∃ b,
    (Sheet.Batch.start (Sheet.new Sheet.standard)).putAll circling = .ok b ∧ b.found = [circuit] :=
  ⟨_, Sheet.putAll_cons.mpr ⟨_, put_oneWay, Sheet.putAll_cons.mpr ⟨_, put_circle, rfl⟩⟩, rfl⟩

private theorem placeAll_entered : ∃ texts, (Sheet.new Sheet.standard).placeAll
    (entered.map fun (address, content) => (.text address, content)) = .ok texts ∧
      texts.toList = circling := by
  have hplaced : (((Sheet.new Sheet.standard).placeAll
      (entered.map fun (address, content) => (.text address, content))).map
        Std.ExtTreeMap.toList).toOption = some circling := by decide +kernel
  obtain ⟨texts, htexts, hlist⟩ := map_eq_ok.mp (eq_ok_of_toOption hplaced)
  exact ⟨texts, htexts, hlist⟩

private theorem answer_entered :
    ((Sheet.new Sheet.standard).load (Sheet.spelled entered)).answer = .ok [circuit] := by
  obtain ⟨texts, hplace, hlist⟩ := placeAll_entered
  obtain ⟨found, hfound⟩ := Sheet.exists_load_eq_ok (s := Sheet.new Sheet.standard) Sheet.formed_of_empty
    (Sheet.bounded_new Sheet.standard) (by decide) (by decide +kernel) hplace
    (fun _ => by decide +kernel) rfl
  rcases Sheet.load_cases hplace rfl with ⟨b, hput, -, -, hanswer | ⟨fault, hanswer⟩⟩ | ⟨-, hanswer⟩
  · obtain ⟨b', hput', htold⟩ := putAll_circling
    rw [hlist, hput'] at hput
    cases hput
    rw [htold] at hanswer
    exact hanswer
  · cases hfound.symm.trans hanswer
  · cases hfound.symm.trans hanswer

/-- A file that holds a session, and one that keeps nothing. -/
def stored : Files :=
  ⟨[(.ofText "in.json", Session.text [(⟨0, 0⟩, "=B1"), (⟨0, 2⟩, "7")])], [], [(.ofText "/dev/null", "")]⟩

/-- Two cells that name each other, a cell emptied again and one given twice, saved under a name. -/
def circular (name : String) : Calculation :=
  ⟨["B1==A1", "D1=5", "D1=6", "C1="], some "in.json", some name, none, none, false⟩

private theorem sessionCells_stored :
    sessionCells stored (some "in.json") = .ok [("A1", "=B1"), ("C1", "7")] := by
  have hspelled : [((⟨0, 0⟩ : Address), "=B1"), (⟨0, 2⟩, "7")].map (fun item => (item.1.text, item.2)) =
      [("A1", "=B1"), ("C1", "7")] := by decide +kernel
  rw [← hspelled]
  exact sessionCells_of_read rfl (Session.read_text (by decide +kernel) (by decide +kernel))

private theorem calculates_circular (hfits : pathsFit stored (circular name)) :
    Calculates stored (circular name) stored none Sheet.standard entered [circuit] := by
  refine ⟨hfits, ⟨_, rfl, rfl, Sheet.limits_defaults⟩, ?_, answer_entered⟩
  have hassigned : ["B1==A1", "D1=5", "D1=6", "C1="].mapM assignment =
      .ok [("B1", "=A1"), ("D1", "5"), ("D1", "6"), ("C1", "")] := eq_ok_of_toOption (by decide +kernel)
  unfold items
  exact bind_eq_ok.mpr ⟨_, sessionCells_stored, bind_eq_ok.mpr ⟨_, hassigned, rfl⟩⟩

/-- What is saved of the cells that name each other. -/
def circularText : String := Session.text [(⟨0, 0⟩, "=B1"), (⟨0, 1⟩, "=A1"), (⟨0, 3⟩, "6")]

private theorem calculate_circular (name : String) {written : Files} (hfits : pathsFit stored (circular name))
    (hname : name ≠ "") (hwrite : stored.write (.ofText name) circularText = .ok written) :
    let o := calculate stored (circular name)
    o.stop = none ∧ o.files = stored ∧
      o.err = "B1: Cycle: Formula would create a circular reference (B1 -> A1 -> B1)\n" ∧
      o.saved = some (.ofText name, circularText) ∧ o.filesAt "" none = written := by
  have hcalculates := calculates_circular hfits
  have htext : Session.text (loaded Sheet.standard entered [circuit]).sheet.dump = circularText := by
    obtain ⟨contents, hcontents, -, hdump⟩ := Sheet.load_spelled Sheet.standard entered hcalculates.answer
    obtain ⟨texts, htexts, hlist⟩ := placeAll_entered
    cases htexts.symm.trans hcontents
    rw [show (loaded Sheet.standard entered [circuit]).sheet.dump = _ from hdump, hlist]
    rfl
  have hfinishing : (loaded Sheet.standard entered [circuit]).sheet.Finishing :=
    Sheet.finishing_attempts (by decide +kernel) [.load (Sheet.spelled entered)]
  have hreport := hcalculates.calculate_eq_report rfl hname (htext ▸ hwrite)
  dsimp only at hreport ⊢
  rw [htext] at hreport
  rw [hreport]
  refine ⟨?_, rfl, ?_, rfl, filesAt_report hwrite "" none⟩
  · change (textReport _).2.map Stop.unshown = none
    rw [textReport_of_finishing hfinishing, Option.map_none]
  · change diagnosticLines [circuit] = _
    decide +kernel

/-! ## What is printed and saved again -/

/-- Under a name that can be a file's, and is not that of a special file, a calculation resumed from the
session that it saved comes to its end, prints what it printed before, and saves the same text, be it under
that name or another one. A special file keeps nothing of the session and gives back what it gave before,
and under any other name the session cannot be loaded. -/
theorem calculate_resumed (files : Files) (c : Calculation) (name time : String)
    (duration : Option Datum) :
    let o := calculate files c
    let after := o.filesAt time duration
    c.saveTo = some name → o.stop = none → settings after c = settings files c →
      (Path.namesFile name = true → o.files.Ordinary (.ofText name) →
        ∃ text, o.saved = some (.ofText name, text) ∧
          after.text? (.ofText name) = some text ∧ ∀ saveTo,
            let again := calculate after (c.resumed name saveTo)
            (saveTo = none ∨ saveTo = some name → again.stop = none) ∧
              (again.stop = none → again.out = o.out ∧ again.err = o.err ∧
                ∀ other, saveTo = some other → other ≠ "" →
                  again.saved = some (.ofText other, text) ∧
                    (other = name ∨ again.files.Ordinary (.ofText other) → ∀ time duration,
                      (again.filesAt time duration).text? (.ofText other) = some text))) ∧
        (∀ content, o.files.item? (.ofText name) = some (.special content) →
          after.text? (.ofText name) = some content) ∧
        (Path.namesFile name = false →
          ∀ saveTo, (calculate after (c.resumed name saveTo)).stop = some .usage) := by
  intro o after hsave hstop hsettings
  refine ⟨fun hname hordinary => ?_, fun content hspecial => ?_,
    fun hname saveTo => congrArg Outcome.stop (resumed_of_not_namesFile hname saveTo)⟩
  · obtain ⟨made, journal, limits, given, found, hsaves, hsaved, before, ho⟩ :=
      exists_saves hsave hname hstop hordinary time duration hsettings
    refine ⟨_, hsaved, hsaves.text, fun saveTo => ?_⟩
    intro again
    have hreport := fun before' => report_congr (show (c.resumed name saveTo).asJson = c.asJson from rfl)
      (loaded limits given found).sheet found before' before
    refine ⟨fun hsaveTo => ?_, fun hstop' => ?_⟩
    · obtain ⟨before', hagain⟩ := hsaves.exists_report hsaveTo
      rw [show again = _ from hagain, (hreport before').2.2, ← ho]
      exact hstop
    · obtain ⟨⟨before', hbefore, hagain⟩, hsaved'⟩ := hsaves.report_of_stop hstop'
      have hfiles : again.files = after := (congrArg Outcome.files hagain).trans hbefore
      refine ⟨?_, ?_, fun other hother hne => ?_⟩
      · rw [show again = _ from hagain, show o = _ from ho, (hreport before').1]
      · rw [show again = _ from hagain, show o = _ from ho, (hreport before').2.1]
      · obtain ⟨hwrites, written', hwritten'⟩ := hsaved' other hother hne
        refine ⟨hwrites, fun hkept time duration => ?_⟩
        refine Files.text?_write (write_filesAt hwrites hwritten' time duration)
          (ordinary_journaled ?_ time duration)
        rcases hkept with rfl | hkept
        · rw [show Outcome.files (calculate _ _) = after from hfiles]
          intro content hspecial
          cases hsaves.item.symm.trans hspecial
        · exact hkept
  · exact (keeps_filesAt o time duration).text? hspecial

/-- Two cells that name each other are told of once more, and saved as they were. -/
theorem calculate_resumed_circular :
    let o := calculate stored (circular "out.json")
    let after := o.filesAt "" none
    let again := calculate after ((circular "out.json").resumed "out.json" (some "out.json"))
    (o.stop = none ∧ settings after (circular "out.json") = settings stored (circular "out.json") ∧
      Path.namesFile "out.json" = true ∧ o.files.Ordinary (.ofText "out.json")) ∧
      o.err = "B1: Cycle: Formula would create a circular reference (B1 -> A1 -> B1)\n" ∧
      o.saved = some (.ofText "out.json", circularText) ∧
      again.stop = none ∧ again.out = o.out ∧ again.err = o.err ∧ again.saved = o.saved := by
  obtain ⟨hstop, hfiles, herr, hsaved, hafter⟩ := calculate_circular "out.json"
    (by decide +kernel) (by decide) rfl
  have hsettings : settings ((calculate stored (circular "out.json")).filesAt "" none)
      (circular "out.json") = settings stored (circular "out.json") := by
    rw [hafter]
    rfl
  have hordinary : (calculate stored (circular "out.json")).files.Ordinary (.ofText "out.json") := by
    rw [hfiles]
    intro content hspecial
    have hnone : stored.item? (.ofText "out.json") = none := by decide +kernel
    cases hnone.symm.trans hspecial
  obtain ⟨text, hsaved', -, hagain⟩ := (calculate_resumed stored (circular "out.json") "out.json" "" none
    rfl hstop hsettings).1 (by decide) hordinary
  obtain ⟨hgoes, hsame⟩ := hagain (some "out.json")
  obtain ⟨hout, herr', hsaves⟩ := hsame (hgoes (.inr rfl))
  exact ⟨⟨hstop, hsettings, by decide, hordinary⟩, herr, hsaved, hgoes (.inr rfl), hout, herr',
    (hsaves "out.json" rfl (by decide)).1.trans hsaved'.symm⟩

/-- What is saved to a file that keeps nothing, or under a name that ends in a slash, cannot be loaded. -/
theorem calculate_resumed_lost :
    (let o := calculate stored (circular "/dev/null")
      let after := o.filesAt "" none
      o.stop = none ∧ settings after (circular "/dev/null") = settings stored (circular "/dev/null") ∧
        o.err = "B1: Cycle: Formula would create a circular reference (B1 -> A1 -> B1)\n" ∧
        o.saved = some (.ofText "/dev/null", circularText) ∧
        calculate after ((circular "/dev/null").resumed "/dev/null" none) =
          .stopped after (.unreadableSession "/dev/null")) ∧
      let o := calculate stored (circular "out.json/")
      let after := o.filesAt "" none
      o.stop = none ∧ settings after (circular "out.json/") = settings stored (circular "out.json/") ∧
        o.saved = some (.ofText "out.json", circularText) ∧
        calculate after ((circular "out.json/").resumed "out.json/" none) = .stopped after .usage := by
  constructor
  · obtain ⟨hstop, -, herr, hsaved, hafter⟩ := calculate_circular "/dev/null" (by decide +kernel)
      (by decide) rfl
    dsimp only
    rw [hafter]
    exact ⟨hstop, rfl, herr, hsaved, rfl⟩
  · obtain ⟨hstop, -, -, hsaved, hafter⟩ := calculate_circular "out.json/" (by decide +kernel)
      (by decide) rfl
    have hpath : Path.ofText "out.json/" = .ofText "out.json" := by decide +kernel
    dsimp only
    rw [hafter]
    exact ⟨hstop, rfl, hpath ▸ hsaved, resumed_of_not_namesFile (by decide +kernel) none⟩

end Command
end Spreadsheet
