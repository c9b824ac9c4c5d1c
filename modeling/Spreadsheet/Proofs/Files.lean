import Spreadsheet.Files
import Spreadsheet.Proofs.Except

/-! What writing a file and making directories leave as it was. Whatever was there stays there, files as
files and directories as directories, so every path leads where it led. What was written is read again,
except from a special file. -/
namespace Spreadsheet

namespace Path

variable {p q : Path} {name : String}

theorem isAbove_iff : p.isAbove q ↔
    p.root = q.root ∧ p.names <+: q.names ∧ p.names.length < q.names.length := by
  simp [isAbove, and_assoc]

theorem isAbove_child : p.isAbove (q.child name) ↔ p = q ∨ p.isAbove q := by
  rw [isAbove_iff, isAbove_iff, child, List.prefix_concat_iff]
  constructor
  · rintro ⟨hroot, hsame | hleads, hlength⟩
    · rw [hsame] at hlength
      exact absurd hlength (Nat.lt_irrefl _)
    · rcases Nat.lt_or_ge p.names.length q.names.length with hless | hge
      · exact .inr ⟨hroot, hleads, hless⟩
      · obtain ⟨root, names⟩ := p
        obtain rfl := hroot
        exact .inl (congrArg _ (hleads.eq_of_length (Nat.le_antisymm hleads.length_le hge)))
  · rintro (rfl | ⟨hroot, hleads, hless⟩)
    · exact ⟨rfl, .inr (List.prefix_refl _), by simp⟩
    · exact ⟨hroot, .inr hleads, by simp; omega⟩

theorem isAbove_of_parent (h : p.isAbove q.parent) : p.isAbove q := by
  rw [isAbove_iff, parent] at *
  exact ⟨h.1, h.2.1.trans (List.dropLast_prefix _),
    Nat.lt_of_lt_of_le h.2.2 (List.dropLast_prefix _).length_le⟩

theorem take_length (p : Path) : p.take p.names.length = p := by
  rw [take, List.take_length]

end Path

namespace Files

variable {f g : Files} {p q : Path} {s t name : String}

/-- An item without what is written in it. -/
def Item.emptied : Item → Item
  | .text _ => .text ""
  | item => item

@[simp] theorem Item.emptied_eq_directory {item : Item} : item.emptied = .directory ↔ item = .directory := by
  cases item <;> simp [emptied]

@[simp] theorem Item.emptied_eq_special {item : Item} : item.emptied = .special s ↔ item = .special s := by
  cases item <;> simp [emptied]

/-- What kind of item there is at a place. -/
def kind? (f : Files) (place : Path) : Option Item := (f.itemAt? place).map Item.emptied

theorem itemAt?_eq_directory : f.itemAt? p = some .directory ↔
    p.names.all (· == "..") ∨ p ∈ f.directories ∨ (∃ q ∈ f.directories, p.isAbove q) ∨
      (∃ text ∈ f.texts, p.isAbove text.1) ∨ ∃ special ∈ f.specials, p.isAbove special.1 := by
  unfold itemAt?
  split
  · rename_i h
    simpa [or_assoc] using h
  · rename_i h
    refine iff_of_false (fun hdirectory => ?_) (by simpa [or_assoc, and_assoc] using h)
    split at hdirectory <;> simp at hdirectory

theorem itemAt?_of_ne (h : f.itemAt? p ≠ some .directory) :
    f.itemAt? p = ((f.specials.lookup p).map .special).or ((f.texts.lookup p).map .text) := by
  unfold itemAt? at h ⊢
  split
  · rename_i hdirectory
    rw [if_pos hdirectory] at h
    exact absurd rfl h
  · cases f.specials.lookup p <;> rfl

theorem kind?_eq_directory : f.kind? p = some .directory ↔ f.itemAt? p = some .directory := by
  unfold kind?
  rw [Option.map_eq_some_iff]
  simp

theorem kind?_eq_special : f.kind? p = some (.special s) ↔ f.itemAt? p = some (.special s) := by
  unfold kind?
  rw [Option.map_eq_some_iff]
  simp

/-! ## Paths -/

/-- Everything on the way to a place is a directory. -/
def Reached (f : Files) (place : Path) : Prop := ∀ p, p.isAbove place → f.kind? p = some .directory

theorem follow_eq_ok : f.follow p name = .ok q ↔ f.kind? p = some .directory ∧ p.enter name = q := by
  rw [kind?_eq_directory]
  unfold follow
  split <;> simp_all

theorem Reached.enter (h : f.Reached p) (hp : f.kind? p = some .directory) (name : String) :
    f.Reached (p.enter name) := by
  have hchild : ∀ name, f.Reached (p.child name) := by
    intro name q hq
    rcases Path.isAbove_child.mp hq with rfl | hq
    · exact hp
    · exact h q hq
  unfold Path.enter
  split
  · exact hchild name
  split
  · split
    · exact hchild ".."
    · exact h
  · exact fun q hq => h q (Path.isAbove_of_parent hq)

theorem reached_of_place (h : f.place p = .ok q) : f.Reached q := by
  unfold place at h
  refine foldlM_invariant (p := f.Reached) ?_ ?_ h
  · intro place name next _ hplace hnext
    obtain ⟨hkind, rfl⟩ := follow_eq_ok.mp hnext
    exact hplace.enter hkind name
  · intro q hq
    rw [Path.isAbove_iff] at hq
    exact absurd hq.2.2 (by simp [Path.take])

/-! ## What is kept -/

/-- Whatever was there is still there, of the same kind. -/
def Keeps (f g : Files) : Prop := ∀ place kind, f.kind? place = some kind → g.kind? place = some kind

theorem Keeps.refl (f : Files) : Keeps f f := fun _ _ h => h

theorem Keeps.trans {h : Files} (hfg : Keeps f g) (hgh : Keeps g h) : Keeps f h :=
  fun place kind hkind => hgh place kind (hfg place kind hkind)

/-- Where all directories are there, a path leads where it led. -/
theorem place_of_directories (h : ∀ r, f.kind? r = some .directory → g.kind? r = some .directory)
    (hp : f.place p = .ok q) : g.place p = .ok q := by
  unfold Files.place at hp ⊢
  generalize p.take 0 = start at hp ⊢
  generalize p.names = names at hp ⊢
  induction names generalizing start with
  | nil => exact hp
  | cons name names ih =>
    rw [List.foldlM_cons] at hp ⊢
    obtain ⟨next, hnext, hrest⟩ := bind_eq_ok.mp hp
    obtain ⟨hkind, rfl⟩ := follow_eq_ok.mp hnext
    exact bind_eq_ok.mpr ⟨_, follow_eq_ok.mpr ⟨h start hkind, rfl⟩, ih _ hrest⟩

theorem Keeps.place (h : Keeps f g) (hp : f.place p = .ok q) : g.place p = .ok q :=
  place_of_directories (fun r => h r .directory) hp

theorem Keeps.item? (h : Keeps f g) {item : Item} (hp : f.item? p = some item) :
    ∃ found, g.item? p = some found ∧ found.emptied = item.emptied := by
  unfold Files.item? at hp ⊢
  obtain ⟨q, hq, hitem⟩ := Option.bind_eq_some_iff.mp hp
  have hkind := h q item.emptied (by rw [kind?, hitem, Option.map_some])
  obtain ⟨found, hfound, hsame⟩ := Option.map_eq_some_iff.mp hkind
  refine ⟨found, ?_, hsame⟩
  rw [h.place (eq_ok_of_toOption hq)]
  exact hfound

theorem Keeps.isDirectory (h : Keeps f g) (hp : f.isDirectory p) : g.isDirectory p := by
  unfold Files.isDirectory at hp ⊢
  rw [beq_iff_eq] at hp ⊢
  obtain ⟨found, hfound, hsame⟩ := h.item? hp
  rw [hfound, Item.emptied_eq_directory.mp hsame]

theorem Keeps.written? (h : Keeps f g) (hs : (f.written? s).isSome) : (g.written? s).isSome := by
  obtain ⟨item, hitem⟩ := Option.isSome_iff_exists.mp hs
  unfold Files.written? at hitem ⊢
  split at hitem
  · contradiction
  · rename_i hsome
    rw [if_neg hsome]
    dsimp only at hitem ⊢
    rw [Option.filter_eq_some_iff] at hitem
    obtain ⟨found, hfound, hsame⟩ := h.item? hitem.1
    rw [Option.isSome_iff_exists]
    refine ⟨found, Option.filter_eq_some_iff.mpr ⟨hfound, ?_⟩⟩
    have hends := hitem.2
    have hdirectory : found = .directory ↔ item = .directory := by
      rw [← Item.emptied_eq_directory, hsame, Item.emptied_eq_directory]
    simp only [Bool.or_eq_true, beq_iff_eq] at hends ⊢
    rwa [hdirectory]

/-! ## Files written -/

theorem lookup_replaced (texts : List (Path × String)) (p q : Path) (s : String) :
    ((texts.filter fun (r, _) => r != q) ++ [(q, s)]).lookup p =
      if p = q then some s else texts.lookup p := by
  induction texts with
  | nil =>
    rw [List.filter_nil, List.nil_append, List.lookup_cons]
    by_cases hp : p = q
    · rw [if_pos hp, beq_iff_eq.mpr hp]
    · rw [if_neg hp, beq_eq_false_iff_ne.mpr hp]
  | cons text texts ih =>
    obtain ⟨r, old⟩ := text
    by_cases hr : r = q
    · rw [List.filter_cons_of_neg (by simp [hr]), ih, hr]
      split
      · rfl
      · rename_i hp
        rw [List.lookup_cons, beq_eq_false_iff_ne.mpr hp]
    · rw [List.filter_cons_of_pos (by simp [hr]), List.cons_append, List.lookup_cons, List.lookup_cons, ih]
      split
      · rename_i hp
        rw [if_neg (by rw [eq_of_beq hp]; exact hr)]
      · rfl

theorem directory_replaced (hq : f.Reached q)
    (htexts : g.texts = (f.texts.filter fun (r, _) => r != q) ++ [(q, s)])
    (hdirectories : g.directories = f.directories) (hspecials : g.specials = f.specials) :
    g.itemAt? p = some .directory ↔ f.itemAt? p = some .directory := by
  rw [itemAt?_eq_directory, itemAt?_eq_directory, htexts, hdirectories, hspecials]
  constructor
  · rintro (hroot | hmem | habove | ⟨text, hmem, habove⟩ | habove)
    · exact .inl hroot
    · exact .inr (.inl hmem)
    · exact .inr (.inr (.inl habove))
    · rcases List.mem_append.mp hmem with hmem | hmem
      · exact .inr (.inr (.inr (.inl ⟨text, (List.mem_filter.mp hmem).1, habove⟩)))
      · rw [List.mem_singleton.mp hmem] at habove
        exact itemAt?_eq_directory.mp (kind?_eq_directory.mp (hq p habove))
    · exact .inr (.inr (.inr (.inr habove)))
  · rintro (hroot | hmem | habove | ⟨text, hmem, habove⟩ | habove)
    · exact .inl hroot
    · exact .inr (.inl hmem)
    · exact .inr (.inr (.inl habove))
    · refine .inr (.inr (.inr (.inl ?_)))
      by_cases htext : text.1 = q
      · exact ⟨(q, s), List.mem_append_right _ List.mem_cons_self, htext ▸ habove⟩
      · exact ⟨text, List.mem_append_left _ (List.mem_filter.mpr ⟨hmem, by simpa using htext⟩), habove⟩
    · exact .inr (.inr (.inr (.inr habove)))

/-- What there is where a text was written. -/
def Item.overwrite (s : String) : Option Item → Item
  | some (.special content) => .special content
  | _ => .text s

theorem Item.overwrite_of_ne {found : Option Item} (h : ∀ content, found ≠ some (.special content)) :
    overwrite s found = .text s := by
  unfold overwrite
  split
  · exact absurd rfl (h _)
  · rfl

@[simp] theorem Item.overwrite_eq_special {found : Option Item} :
    overwrite s found = .special t ↔ found = some (.special t) := by
  unfold overwrite
  split
  · simp
  · rename_i hordinary
    simpa using hordinary t

@[simp] theorem Item.overwrite_ne_directory {found : Option Item} : overwrite s found ≠ .directory := by
  unfold overwrite
  split <;> simp

theorem Item.emptied_overwrite (s : String) (found : Option Item) :
    (overwrite s found).emptied = overwrite "" (found.map emptied) := by
  cases found with
  | none => rfl
  | some item => cases item <;> rfl

theorem lookup_specials (h : f.itemAt? p ≠ some .directory)
    (hordinary : ∀ content, f.itemAt? p ≠ some (.special content)) : f.specials.lookup p = none := by
  rw [itemAt?_of_ne h] at hordinary
  cases hlookup : f.specials.lookup p with
  | none => rfl
  | some content => exact absurd (by rw [hlookup]; rfl) (hordinary content)

/-- A text is written where no directory is, and nothing changes anywhere else. -/
theorem itemAt?_write (h : f.write p s = .ok g) : ∃ q, f.place p = .ok q ∧ f.kind? q ≠ some .directory ∧
    ∀ r, g.itemAt? r = if r = q then some (Item.overwrite s (f.itemAt? q)) else f.itemAt? r := by
  unfold write at h
  obtain ⟨q, hq, hwrite⟩ := bind_eq_ok.mp h
  refine ⟨q, hq, ?_⟩
  rw [ne_eq, kind?_eq_directory]
  split at hwrite
  · cases hwrite
  · rename_i content hspecial
    cases hwrite
    rw [hspecial]
    refine ⟨by simp, fun r => ?_⟩
    split
    · rename_i hr
      rw [hr, hspecial]
      rfl
    · rfl
  · rename_i hfile hordinary
    refine ⟨hfile, fun r => ?_⟩
    have htexts : g.texts = (f.texts.filter fun (r, _) => r != q) ++ [(q, s)] := by
      cases hwrite
      rfl
    have hspecials : g.specials = f.specials := by
      cases hwrite
      rfl
    have hdirectory : g.itemAt? r = some .directory ↔ f.itemAt? r = some .directory :=
      directory_replaced (reached_of_place hq) htexts (by cases hwrite; rfl) hspecials
    by_cases hr : f.itemAt? r = some .directory
    · rw [if_neg (fun heq : r = q => hfile (heq ▸ hr)), hr, hdirectory.mpr hr]
    · rw [itemAt?_of_ne hr, itemAt?_of_ne (mt hdirectory.mp hr), htexts, hspecials, lookup_replaced]
      split
      · rename_i heq
        rw [heq, lookup_specials hfile hordinary, Item.overwrite_of_ne hordinary]
        rfl
      · rfl

theorem exists_write (hq : f.place p = .ok q) (hkind : f.kind? q ≠ some .directory) (s : String) :
    ∃ g, f.write p s = .ok g := by
  rw [ne_eq, kind?_eq_directory] at hkind
  unfold write
  cases hitem : f.itemAt? q with
  | none => exact ⟨_, bind_eq_ok.mpr ⟨q, hq, by rw [hitem]⟩⟩
  | some item =>
    cases item with
    | text _ => exact ⟨_, bind_eq_ok.mpr ⟨q, hq, by rw [hitem]⟩⟩
    | special _ => exact ⟨_, bind_eq_ok.mpr ⟨q, hq, by rw [hitem]⟩⟩
    | directory => exact absurd hitem hkind

theorem kind?_write (h : f.write p s = .ok g) : ∃ q, f.place p = .ok q ∧ f.kind? q ≠ some .directory ∧
    ∀ r, g.kind? r = if r = q then some (Item.overwrite "" (f.kind? q)) else f.kind? r := by
  obtain ⟨q, hq, hfile, hitems⟩ := itemAt?_write h
  refine ⟨q, hq, hfile, fun r => ?_⟩
  unfold kind?
  rw [hitems]
  split
  · rw [Option.map_some, Item.emptied_overwrite]
  · rfl

theorem keeps_write (h : f.write p s = .ok g) : Keeps f g := by
  obtain ⟨q, -, hfile, hkinds⟩ := kind?_write h
  intro r kind hkind
  rw [hkinds]
  split
  · rename_i hr
    rw [← hr, hkind] at hfile ⊢
    obtain ⟨item, -, rfl⟩ := Option.map_eq_some_iff.mp hkind
    cases item with
    | text _ | special _ => rfl
    | directory => exact absurd rfl hfile
  · exact hkind

/-- Whether a path leads to no special file: to a text, a directory, or nothing yet. -/
def Ordinary (f : Files) (p : Path) : Prop := ∀ content, f.item? p ≠ some (.special content)

theorem ordinary_iff : f.Ordinary p ↔
    ∀ q content, f.place p = .ok q → f.kind? q ≠ some (.special content) := by
  unfold Ordinary item?
  simp only [ne_eq, kind?_eq_special]
  cases f.place p with
  | error fault => simp [Except.toOption]
  | ok q => exact ⟨fun h r content heq => Except.ok.inj heq ▸ h content, fun h content => h q content rfl⟩

/-- A text that is written makes no special file. -/
theorem Ordinary.write (h : f.Ordinary p) {r : Path} (hwrite : f.write r s = .ok g) : g.Ordinary p := by
  obtain ⟨q, -, -, hkinds⟩ := kind?_write hwrite
  rw [ordinary_iff] at h ⊢
  intro place content hplace hspecial
  have hback : f.place p = .ok place := by
    refine place_of_directories (fun r hr => ?_) hplace
    rw [hkinds] at hr
    split at hr
    · exact absurd (Option.some.inj hr) Item.overwrite_ne_directory
    · exact hr
  rw [hkinds] at hspecial
  split at hspecial
  · rename_i heq
    exact h place content hback (heq ▸ Item.overwrite_eq_special.mp (Option.some.inj hspecial))
  · exact h place content hback hspecial

theorem ordinary_attempt (h : f.Ordinary p) (r : Path) (s : String) :
    ((f.write r s).toOption.getD f).Ordinary p := by
  cases hs : f.write r s with
  | error fault => exact h
  | ok g => exact h.write hs

/-- What was written to an ordinary file is read. -/
theorem item?_write (h : f.write p s = .ok g) (hordinary : f.Ordinary p) : g.item? p = some (.text s) := by
  obtain ⟨q, hq, -, hitems⟩ := itemAt?_write h
  unfold Ordinary item? at hordinary
  unfold item?
  rw [hq] at hordinary
  rw [(keeps_write h).place hq]
  exact (hitems q).trans ((if_pos rfl).trans (congrArg some (Item.overwrite_of_ne hordinary)))

theorem text?_write (h : f.write p s = .ok g) (hordinary : f.Ordinary p) : g.text? p = some s := by
  unfold text?
  rw [item?_write h hordinary]

/-- A special file gives back what it gave before. -/
theorem Keeps.text? (h : Keeps f g) (hspecial : f.item? p = some (.special t)) : g.text? p = some t := by
  obtain ⟨found, hfound, hsame⟩ := h.item? hspecial
  unfold Files.text?
  rw [hfound, Item.emptied_eq_special.mp hsame]

theorem exists_item_of_text? (h : f.text? p = some s) : ∃ item, f.item? p = some item ∧ item ≠ .directory := by
  unfold text? at h
  split at h
  · exact ⟨_, by assumption, by simp⟩
  · exact ⟨_, by assumption, by simp⟩
  · contradiction

/-- Where there is something to read, something can be written. -/
theorem Keeps.write (h : Keeps f g) {item : Item} (hp : f.item? p = some item) (hfile : item ≠ .directory)
    (s : String) : ∃ written, g.write p s = .ok written := by
  unfold Files.item? at hp
  obtain ⟨q, hq, hitem⟩ := Option.bind_eq_some_iff.mp hp
  have hkind : g.kind? q = some item.emptied := h q _ (by rw [kind?, hitem]; rfl)
  refine exists_write (h.place (eq_ok_of_toOption hq)) ?_ s
  rwa [hkind, ne_eq, Option.some_inj, Item.emptied_eq_directory]

/-- Whether a text can be written depends on the places of files and directories only. -/
theorem write_congr (hkinds : ∀ r, f.kind? r = g.kind? r) {written : Files}
    (h : f.write p s = .ok written) (t : String) : ∃ written, g.write p t = .ok written := by
  obtain ⟨q, hq, hfile, -⟩ := itemAt?_write h
  have hkeeps : Keeps f g := fun r kind hkind => hkinds r ▸ hkind
  exact exists_write (hkeeps.place hq) (hkinds q ▸ hfile) t

/-- Files after an attempt to write a text. Of the text nothing but its place shows in what is where. -/
theorem kind?_attempt (f : Files) (p r : Path) (s t : String) :
    ((f.write p s).toOption.getD f).kind? r = ((f.write p t).toOption.getD f).kind? r := by
  cases hs : f.write p s with
  | error fault =>
    cases ht : f.write p t with
    | error fault' => rfl
    | ok g =>
      obtain ⟨written, hwritten⟩ := write_congr (fun _ => rfl) ht s
      rw [hs] at hwritten
      contradiction
  | ok g =>
    obtain ⟨written, ht⟩ := write_congr (fun _ => rfl) hs t
    obtain ⟨q, hq, -, hkinds⟩ := kind?_write hs
    obtain ⟨q', hq', -, hkinds'⟩ := kind?_write ht
    rw [hq] at hq'
    cases hq'
    rw [ht]
    exact (hkinds r).trans (hkinds' r).symm

theorem keeps_attempt (f : Files) (p : Path) (s : String) :
    Keeps f ((f.write p s).toOption.getD f) := by
  cases hs : f.write p s with
  | error fault => exact .refl f
  | ok g => exact keeps_write hs

/-! ## Directories made -/

theorem keeps_added (hq : f.Reached q) (hvacant : f.itemAt? q = none) :
    Keeps f { f with directories := f.directories ++ [q] } := by
  have hmono : ∀ {r}, f.itemAt? r = some .directory →
      itemAt? { f with directories := f.directories ++ [q] } r = some .directory := by
    intro r hr
    rw [itemAt?_eq_directory] at hr ⊢
    rcases hr with hroot | hmem | ⟨d, hd, habove⟩ | habove
    · exact .inl hroot
    · exact .inr (.inl (List.mem_append_left _ hmem))
    · exact .inr (.inr (.inl ⟨d, List.mem_append_left _ hd, habove⟩))
    · exact .inr (.inr (.inr habove))
  have hback : ∀ {r}, itemAt? { f with directories := f.directories ++ [q] } r = some .directory →
      r = q ∨ f.itemAt? r = some .directory := by
    intro r hr
    rw [itemAt?_eq_directory] at hr
    rcases hr with hroot | hmem | ⟨d, hd, habove⟩ | habove
    · exact .inr (itemAt?_eq_directory.mpr (.inl hroot))
    · rcases List.mem_append.mp hmem with hmem | hmem
      · exact .inr (itemAt?_eq_directory.mpr (.inr (.inl hmem)))
      · exact .inl (List.mem_singleton.mp hmem)
    · rcases List.mem_append.mp hd with hd | hd
      · exact .inr (itemAt?_eq_directory.mpr (.inr (.inr (.inl ⟨d, hd, habove⟩))))
      · rw [List.mem_singleton.mp hd] at habove
        exact .inr (kind?_eq_directory.mp (hq r habove))
    · exact .inr (itemAt?_eq_directory.mpr (.inr (.inr (.inr habove))))
  intro r kind hkind
  by_cases hr : f.itemAt? r = some .directory
  · rw [← hkind, kind?, kind?, hr, hmono hr]
  · have hne : r ≠ q := by
      rintro rfl
      rw [kind?, hvacant] at hkind
      contradiction
    have hr' := fun h => (hback h).elim hne hr
    rw [← hkind, kind?, kind?, itemAt?_of_ne hr, itemAt?_of_ne hr']

theorem keeps_makeOne (h : f.makeOne p = .ok g) : Keeps f g ∧ g.isDirectory p := by
  unfold makeOne at h
  obtain ⟨q, hq, hmade⟩ := bind_eq_ok.mp h
  rw [ite_error_eq_ok, Option.not_isSome_iff_eq_none] at hmade
  obtain ⟨hvacant, hg⟩ := hmade
  have hkeeps := keeps_added (reached_of_place hq) hvacant
  cases hg
  refine ⟨hkeeps, ?_⟩
  unfold isDirectory item?
  rw [hkeeps.place hq, beq_iff_eq]
  exact itemAt?_eq_directory.mpr (.inr (.inl (List.mem_append_right _ List.mem_cons_self)))

theorem keeps_ensureDirectory (h : f.ensureDirectory p = .ok g) : Keeps f g ∧ g.isDirectory p := by
  unfold ensureDirectory at h
  split at h
  · contradiction
  · split at h
    · rename_i hdirectory
      cases h
      exact ⟨.refl f, hdirectory⟩
    · contradiction
  · exact keeps_makeOne h

theorem keeps_makeLeading {count : Nat} (h : f.makeLeading p count = .ok g) :
    Keeps f g ∧ g.isDirectory (p.take count) := by
  induction count generalizing g with
  | zero => exact keeps_ensureDirectory h
  | succ count ih =>
    unfold makeLeading at h
    split at h
    · obtain ⟨before, hbefore, hmade⟩ := bind_eq_ok.mp h
      obtain ⟨hkeeps, hdirectory⟩ := keeps_ensureDirectory hmade
      exact ⟨(ih hbefore).1.trans hkeeps, hdirectory⟩
    · exact keeps_ensureDirectory h

/-- A directory that was made is there. -/
theorem keeps_makeDirectory (h : f.makeDirectory p = .ok g) : Keeps f g ∧ g.isDirectory p := by
  have hmade := keeps_makeLeading h
  rwa [Path.take_length] at hmade

theorem ensureDirectory_of_isDirectory (h : f.isDirectory p) : f.ensureDirectory p = .ok f := by
  have hmade : f.makeOne p = .error .exists := by
    unfold isDirectory item? at h
    rw [beq_iff_eq] at h
    obtain ⟨q, hq, hitem⟩ := Option.bind_eq_some_iff.mp h
    unfold makeOne
    rw [eq_ok_of_toOption hq]
    exact if_pos (by rw [hitem]; rfl)
  unfold ensureDirectory
  rw [hmade]
  exact if_pos h

/-- A directory that is there need not be made. -/
theorem makeDirectory_of_isDirectory (h : f.isDirectory p) : f.makeDirectory p = .ok f := by
  have hensure := ensureDirectory_of_isDirectory h
  rw [← Path.take_length p] at hensure
  unfold makeDirectory
  generalize p.names.length = count at hensure ⊢
  cases count with
  | zero => exact hensure
  | succ count =>
    unfold makeLeading
    rw [hensure]

end Files
end Spreadsheet
