import Spreadsheet.Proofs.Except
import Spreadsheet.Proofs.Formula.Spelling

/-! Trees that were read from text. The reader takes no token for a number or a name that is none, so
that constants have no sign, calls have names in upper case, and the tree is not too high. -/
namespace Spreadsheet.Formula

open Number (Decimal)

/-! ## Tokens -/

/-- A number starts without a sign, and a name is one. -/
structure Token.Sound (token : Token) : Prop where
  number : token.terminal = .number → Number.splitSign token.chars = (false, token.chars)
  name : token.terminal = .name → Terminal.IsName token.chars

namespace Terminal

theorem unsigned_of_numberExtent {cs : List Char} (h : numberExtent cs ≠ 0) :
    Number.splitSign (cs.take (numberExtent cs)) = (false, cs.take (numberExtent cs)) := by
  obtain ⟨k, hk⟩ := Nat.exists_eq_succ_of_ne_zero h
  rw [hk] at h ⊢
  cases cs with
  | nil => rfl
  | cons c cs =>
    have hsign : c ≠ '-' ∧ c ≠ '+' := by
      constructor
      · rintro rfl
        rw [numberExtent_cons (c := '-') (by decide) (by decide)] at hk
        contradiction
      · rintro rfl
        rw [numberExtent_cons (c := '+') (by decide) (by decide)] at hk
        contradiction
    rw [List.take_succ_cons, Number.splitSign]
    · exact fun _ heq => hsign.1 (List.cons.inj heq).1
    · exact fun _ heq => hsign.2 (List.cons.inj heq).1

theorem isName_of_nameExtent {cs : List Char} (h : nameExtent cs ≠ 0) :
    IsName (cs.take (nameExtent cs)) := by
  cases cs with
  | nil => exact absurd rfl h
  | cons c cs =>
    unfold nameExtent at h ⊢
    dsimp only at h ⊢
    split at h
    · rename_i hstart
      rw [if_pos hstart, List.take_succ_cons]
      refine ⟨hstart, fun d hd => ?_⟩
      unfold run at hd
      rw [← List.prefix_iff_eq_take.mp (List.takeWhile_prefix _)] at hd
      exact List.all_eq_true.mp List.all_takeWhile d hd
    · contradiction

/-- What is taken off a text as a token of a class that starts there. -/
theorem sound_take {candidates : List Terminal} {t : Terminal} {cs : List Char}
    (h : first? candidates cs = some t) (column : Nat) :
    Token.Sound ⟨t, cs.take (t.extent cs), column⟩ := by
  have hextent : t.extent cs ≠ 0 := extent_of_first? h
  constructor
  · rintro rfl
    exact unsigned_of_numberExtent hextent
  · rintro rfl
    exact isName_of_nameExtent hextent

end Terminal

/-! ## Drafts -/

namespace Draft

mutual

/-- Every token of a draft is sound, and calls have names. -/
def Sound : Draft → Prop
  | .leaf token => token.Sound
  | .range _ _ => True
  | .unary _ operand => Sound operand
  | .binary _ left right => Sound left ∧ Sound right
  | .call name arguments => Terminal.IsName name.chars ∧ SoundAll arguments

def SoundAll : List Draft → Prop
  | [] => True
  | draft :: drafts => Sound draft ∧ SoundAll drafts

end

theorem soundAll_iff {drafts : List Draft} : SoundAll drafts ↔ ∀ draft ∈ drafts, draft.Sound := by
  induction drafts with
  | nil => simp [SoundAll]
  | cons draft drafts ih => rw [SoundAll, ih, List.forall_mem_cons]

end Draft

/-! ## The reader -/

def Frame.Sound : Frame → Prop
  | .unary _ | .group => True
  | .binary left _ => left.Sound
  | .call name arguments => Terminal.IsName name.chars ∧ ∀ draft ∈ arguments, draft.Sound

def Focus.Sound : Focus → Prop
  | .operand _ | .corner _ => True
  | .name token => Terminal.IsName token.chars
  | .reference token => token.Sound
  | .range draft | .complete draft => draft.Sound

structure Reader.Sound (r : Reader) : Prop where
  frames : ∀ frame ∈ r.frames, frame.Sound
  focus : r.focus.Sound

theorem sound_reduce (level : Nat) {frames : List Frame} {draft : Draft}
    (hframes : ∀ frame ∈ frames, frame.Sound) (hdraft : draft.Sound) :
    (∀ frame ∈ (reduce level frames draft).1, frame.Sound) ∧ (reduce level frames draft).2.Sound := by
  fun_induction reduce level frames draft with
  | case1 op frames draft ih =>
    exact ih (List.forall_mem_cons.mp hframes).2 hdraft
  | case2 left op frames draft hle ih =>
    obtain ⟨hleft, hframes⟩ := List.forall_mem_cons.mp hframes
    exact ih hframes ⟨hleft, hdraft⟩
  | case3 => exact ⟨hframes, hdraft⟩
  | case4 => exact ⟨hframes, hdraft⟩

namespace Reader

theorem Sound.draft {r : Reader} (h : r.Sound) {draft : Draft} (hdraft : r.focus.draft? = some draft) :
    draft.Sound := by
  obtain ⟨frames, focus⟩ := r
  have hfocus := h.focus
  cases focus with
  | operand afterCall => contradiction
  | name name => contradiction
  | corner first => contradiction
  | reference token => cases hdraft; exact hfocus
  | range draft => cases hdraft; exact hfocus
  | complete draft => cases hdraft; exact hfocus

theorem sound_takeOperand {frames : List Frame} (hframes : ∀ frame ∈ frames, frame.Sound)
    {token : Token} (htoken : token.Sound) : (takeOperand frames token).Sound := by
  unfold takeOperand
  split
  · rename_i hname
    exact ⟨hframes, htoken.name hname⟩
  · exact ⟨hframes, htoken⟩
  · exact ⟨hframes, htoken⟩
  · exact ⟨List.forall_mem_cons.mpr ⟨trivial, hframes⟩, trivial⟩
  · exact ⟨List.forall_mem_cons.mpr ⟨trivial, hframes⟩, trivial⟩
  · exact ⟨List.forall_mem_cons.mpr ⟨trivial, hframes⟩, trivial⟩
  · exact ⟨hframes, htoken⟩

theorem sound_takeMark {frames : List Frame} {draft : Draft}
    (hframes : ∀ frame ∈ frames, frame.Sound) (hdraft : draft.Sound) {token : Token} {mark : Mark}
    {r : Reader} (h : takeMark frames draft token mark = .ok r) : r.Sound := by
  obtain ⟨hkept, hreduced⟩ := sound_reduce 0 hframes hdraft
  unfold takeMark at h
  split at h
  · cases h
    exact ⟨hframes, by rwa [Focus.Sound, Draft.Sound]⟩
  · cases h
    exact ⟨List.forall_mem_cons.mpr ⟨hdraft, hframes⟩, trivial⟩
  · split at h
    · rename_i rest whole heq
      rw [heq] at hkept hreduced
      cases h
      exact ⟨(List.forall_mem_cons.mp hkept).2, hreduced⟩
    · rename_i name arguments rest whole heq
      rw [heq] at hkept hreduced
      obtain ⟨⟨hname, harguments⟩, hrest⟩ := List.forall_mem_cons.mp hkept
      cases h
      refine ⟨hrest, ?_⟩
      rw [Focus.Sound, Draft.Sound, Draft.soundAll_iff]
      refine ⟨hname, fun d hd => ?_⟩
      rw [List.mem_reverse] at hd
      exact List.forall_mem_cons.mpr ⟨hreduced, harguments⟩ d hd
    · contradiction
  · split at h
    · rename_i name arguments rest whole heq
      rw [heq] at hkept hreduced
      obtain ⟨⟨hname, harguments⟩, hrest⟩ := List.forall_mem_cons.mp hkept
      cases h
      exact ⟨List.forall_mem_cons.mpr
        ⟨⟨hname, List.forall_mem_cons.mpr ⟨hreduced, harguments⟩⟩, hrest⟩, trivial⟩
    · contradiction
  · split at h
    · rename_i op _
      obtain ⟨hkept, hreduced⟩ := sound_reduce op.precedence hframes hdraft
      cases h
      exact ⟨List.forall_mem_cons.mpr ⟨hreduced, hkept⟩, trivial⟩
    · contradiction

/-- What a reader takes keeps it sound. -/
theorem Sound.take {r r' : Reader} (h : r.Sound) {token : Token} (htoken : token.Sound)
    (htake : r.take token = .ok r') : r'.Sound := by
  have hframes := h.frames
  have hfocus := h.focus
  unfold Reader.take at htake
  split at htake
  · split at htake
    · rename_i name arguments rest heq
      rw [heq] at hframes
      obtain ⟨⟨hname, harguments⟩, hrest⟩ := List.forall_mem_cons.mp hframes
      cases htake
      refine ⟨hrest, ?_⟩
      rw [Focus.Sound, Draft.Sound, Draft.soundAll_iff]
      exact ⟨hname, fun d hd => harguments d (List.mem_reverse.mp hd)⟩
    · contradiction
  · cases htake
    exact sound_takeOperand hframes htoken
  · rename_i token' _ heq
    rw [heq] at hfocus
    cases htake
    exact ⟨List.forall_mem_cons.mpr ⟨⟨hfocus, fun d hd => absurd hd List.not_mem_nil⟩, hframes⟩,
      trivial⟩
  · cases htake
    exact ⟨hframes, trivial⟩
  · rename_i first mark _ heq _
    exact sound_takeMark hframes (h.draft (by rw [heq]; rfl)) htake
  · cases htake
    exact ⟨hframes, by rw [Focus.Sound, Draft.Sound]; trivial⟩
  · rename_i draft mark heq _
    exact sound_takeMark hframes (h.draft (by rw [heq]; rfl)) htake
  · rename_i draft mark heq _
    exact sound_takeMark hframes (h.draft (by rw [heq]; rfl)) htake
  · contradiction

theorem Sound.finish {r : Reader} (h : r.Sound) {size : Nat} {draft : Draft}
    (hfinish : r.finish size = .ok draft) : draft.Sound := by
  unfold Reader.finish at hfinish
  split at hfinish
  · contradiction
  · rename_i last hlast
    have hreduced := (sound_reduce 0 h.frames (h.draft hlast)).2
    split at hfinish
    · rename_i whole heq
      rw [heq] at hreduced
      cases hfinish
      exact hreduced
    · contradiction

end Reader

theorem sound_readFrom {text : List Char} {r : Reader} {column : Nat} {rest : List Char}
    (h : r.Sound) {draft : Draft} (hread : readFrom text r column rest = .ok draft) :
    draft.Sound := by
  fun_induction readFrom text r column rest with
  | case1 r column => exact h.finish hread
  | case2 r column c tail hspacing ih => exact ih h hread
  | case3 => contradiction
  | case4 => contradiction
  | case5 => contradiction
  | case6 r column c tail _ t hfirst extent token hextent r' htake ih =>
    exact ih (h.take (Terminal.sound_take hfirst column) htake) hread

theorem sound_draft? {s : String} {draft : Draft} (h : draft? s = .ok draft) : draft.Sound := by
  have hstart : Reader.start.Sound := ⟨fun _ h => absurd h List.not_mem_nil, trivial⟩
  unfold draft? at h
  split at h
  · exact sound_readFrom hstart h
  · contradiction

/-! ## Trees -/

theorem upperChar_of_isNameRest {c : Char} (h : Terminal.isNameRest c) :
    Text.upperChar c = [c.toUpper] ∧ Text.upperChar c.toUpper = [c.toUpper] ∧
      Terminal.isNameRest c.toUpper ∧ (Terminal.isNameStart c → Terminal.isNameStart c.toUpper) := by
  have hall : ∀ n < 128, Terminal.isNameRest (Char.ofNat n) →
      Text.upperChar (Char.ofNat n) = [(Char.ofNat n).toUpper] ∧
        Text.upperChar (Char.ofNat n).toUpper = [(Char.ofNat n).toUpper] ∧
        Terminal.isNameRest (Char.ofNat n).toUpper ∧
        (Terminal.isNameStart (Char.ofNat n) → Terminal.isNameStart (Char.ofNat n).toUpper) := by
    decide
  have hascii : c.toNat < 128 := by
    unfold Terminal.isNameRest Terminal.isNameStart Text.isAsciiLetter Text.isAsciiDigit at h
    simp only [Bool.or_eq_true, Bool.and_eq_true, decide_eq_true_eq, beq_iff_eq] at h
    rcases h with (((h | h) | rfl) | h) | rfl
    · omega
    · omega
    · decide
    · omega
    · decide
  have hc := hall c.toNat hascii
  rw [Char.ofNat_toNat] at hc
  exact hc h

theorem upper_of_isNameRest {cs : List Char} (h : ∀ c ∈ cs, Terminal.isNameRest c) :
    Text.upper cs = cs.map Char.toUpper := by
  unfold Text.upper
  induction cs with
  | nil => rfl
  | cons c cs ih =>
    obtain ⟨hc, hcs⟩ := List.forall_mem_cons.mp h
    rw [List.flatMap_cons, (upperChar_of_isNameRest hc).1, ih hcs]
    rfl

/-- A name becomes one in upper case. -/
theorem isCallName_upper {cs : List Char} (h : Terminal.IsName cs) :
    IsCallName (String.ofList (Text.upper cs)) := by
  have hrest := h.isNameRest
  unfold IsCallName
  rw [String.toList_ofList, upper_of_isNameRest hrest]
  obtain ⟨c, cs, rfl, hstart, -⟩ := h.exists_cons
  obtain ⟨hc, hcs⟩ := List.forall_mem_cons.mp hrest
  refine ⟨⟨(upperChar_of_isNameRest hc).2.2.2 hstart, ?_⟩, Text.upper_eq_self ?_⟩
  · intro d hd
    obtain ⟨e, he, rfl⟩ := List.mem_map.mp hd
    exact (upperChar_of_isNameRest (hcs e he)).2.2.1
  · intro d hd
    obtain ⟨e, he, rfl⟩ := List.mem_map.mp hd
    exact (upperChar_of_isNameRest (hrest e he)).2.1

theorem negative_of_ofChars? {cs : List Char} {d : Decimal} (h : Decimal.ofChars? cs = some d) :
    d.negative = (Number.splitSign cs).1 := by
  unfold Decimal.ofChars? at h
  simp only [Option.ite_none_left_eq_some, Option.map_eq_some_iff] at h
  obtain ⟨-, e, -, rfl⟩ := h
  rfl

theorem ofUnits_unsigned (n d : Nat) : Number.Binary64.ofUnits false n d = .infinite false ∨
    ∃ m, Number.Binary64.ofUnits false n d = .finite false m := by
  unfold Number.Binary64.ofUnits
  split
  · exact .inr ⟨_, rfl⟩
  · exact .inl rfl

theorem toBinary_unsigned {d : Decimal} (h : d.negative = false) :
    d.toBinary = .infinite false ∨ ∃ m, d.toBinary = .finite false m := by
  unfold Decimal.toBinary
  rw [h]
  split
  · exact .inr ⟨_, rfl⟩
  split
  · exact .inl rfl
  · exact ofUnits_unsigned _ _

namespace Draft

theorem spellable_readNumber {token : Token} (h : token.Sound) (hnumber : token.terminal = .number)
    {v : Value} (hread : readNumber token = .ok v) : v.Spellable := by
  unfold readNumber at hread
  split at hread
  · split at hread
    · rename_i x hx
      obtain ⟨d, hd, rfl⟩ := Option.map_eq_some_iff.mp hx
      have hsign := negative_of_ofChars? hd
      rw [h.number hnumber] at hsign
      rcases toBinary_unsigned hsign with hvalue | ⟨m, hvalue⟩
      · rw [hvalue] at hread
        contradiction
      · rw [hvalue] at hread
        cases hread
        rfl
    · contradiction
  · split at hread
    · rename_i n hn
      cases hread
      exact ⟨Int.natCast_nonneg n, Number.isWritable_of_natOfDigits hn⟩
    · contradiction

theorem leaves_readLeaf {token : Token} (h : token.Sound) {f : Formula}
    (hread : readLeaf token = .ok f) : f.Regular ∧ f.height = 1 := by
  have hnat := corners_of_readLeaf (fun _ => natural_of_readAddress) hread
  cases readsAs_of_readLeaf hread with
  | number hnumber hv =>
    exact ⟨Leaves.constant_iff.mpr (spellable_readNumber h hnumber hv), by rw [height]⟩
  | text _ | bool _ | errorCode _ _ => exact ⟨Leaves.constant_iff.mpr trivial, by rw [height]⟩
  | @address a _ =>
    exact ⟨Leaves.cell_iff.mpr (hnat (.cell a) (by simp [references])), by rw [height]⟩

mutual

theorem regular_of_resolveAt {depth : Nat} {draft : Draft} (h : draft.Sound) {f : Formula}
    (hread : draft.resolveAt depth = .ok f) : f.Regular ∧ depth + f.height < maxHeight := by
  match draft with
  | .leaf token =>
    rw [resolveAt, ite_error_eq_ok] at hread
    rw [Sound] at h
    obtain ⟨hregular, hheight⟩ := leaves_readLeaf h hread.2
    exact ⟨hregular, by omega⟩
  | .range first last =>
    have hnat := corners_of_resolveAt (fun _ _ => natural_of_readAddress) hread
    rw [resolveAt, ite_error_eq_ok] at hread
    obtain ⟨a, ha, hrest⟩ := bind_eq_ok.mp hread.2
    obtain ⟨b, hb, hrest⟩ := bind_eq_ok.mp hrest
    cases hrest
    exact ⟨Leaves.range_iff.mpr (hnat (.range a b) (by simp [references])), by rw [height]; omega⟩
  | .unary op operand =>
    rw [resolveAt, ite_error_eq_ok] at hread
    rw [Sound] at h
    obtain ⟨x, hx, hrest⟩ := bind_eq_ok.mp hread.2
    cases hrest
    obtain ⟨hregular, hheight⟩ := regular_of_resolveAt h hx
    exact ⟨Leaves.unary_iff.mpr hregular, by rw [height]; omega⟩
  | .binary op left right =>
    rw [resolveAt, ite_error_eq_ok] at hread
    rw [Sound] at h
    obtain ⟨x, hx, hrest⟩ := bind_eq_ok.mp hread.2
    obtain ⟨y, hy, hrest⟩ := bind_eq_ok.mp hrest
    cases hrest
    obtain ⟨hleft, hheight⟩ := regular_of_resolveAt h.1 hx
    obtain ⟨hright, hheight'⟩ := regular_of_resolveAt h.2 hy
    exact ⟨Leaves.binary_iff.mpr ⟨hleft, hright⟩, by rw [height]; omega⟩
  | .call name arguments =>
    rw [resolveAt, ite_error_eq_ok] at hread
    rw [Sound] at h
    obtain ⟨xs, hxs, hrest⟩ := bind_eq_ok.mp hread.2
    cases hrest
    obtain ⟨hall, hheight⟩ := regular_of_resolveAll h.2 hread.1 hxs
    exact ⟨Leaves.call_iff.mpr ⟨isCallName_upper h.1, hall⟩, by rw [height]; omega⟩

theorem regular_of_resolveAll {depth : Nat} {drafts : List Draft} (h : SoundAll drafts)
    (hdepth : ¬maxHeight ≤ depth) {fs : List Formula} (hread : resolveAll depth drafts = .ok fs) :
    LeavesOfAll Reference.Natural fs ∧ depth + heightAll fs < maxHeight := by
  match drafts with
  | [] =>
    rw [resolveAll] at hread
    cases hread
    exact ⟨leavesOfAll_nil _, by rw [heightAll]; omega⟩
  | draft :: drafts =>
    rw [resolveAll] at hread
    rw [SoundAll] at h
    obtain ⟨x, hx, hrest⟩ := bind_eq_ok.mp hread
    obtain ⟨xs, hxs, hrest⟩ := bind_eq_ok.mp hrest
    cases hrest
    obtain ⟨hregular, hheight⟩ := regular_of_resolveAt h.1 hx
    obtain ⟨hall, hheight'⟩ := regular_of_resolveAll h.2 hdepth hxs
    exact ⟨leavesOfAll_cons_iff.mpr ⟨hregular, hall⟩, by rw [heightAll]; omega⟩

end

end Draft

/-- A tree that was read from text has constants without a sign, calls by names in upper case, no
negative row or column, and no more levels than a formula may have. -/
theorem regular_of_parse {s : String} {f : Formula} (h : parse s = .ok f) :
    f.Regular ∧ f.height < Draft.maxHeight := by
  obtain ⟨draft, hdraft, hresolve⟩ := bind_eq_ok.mp h
  obtain ⟨hregular, hheight⟩ := Draft.regular_of_resolveAt (sound_draft? hdraft) hresolve
  exact ⟨hregular, by omega⟩

theorem Draft.isWritable_of_readAddress {token : Token} {a : Address}
    (h : readAddress token = .ok a) : a.isWritable := by
  unfold readAddress at h
  split at h
  · unfold readRowColumn at h
    dsimp only at h
    split at h
    · cases h
    · cases h
    · rename_i row col hrow hcol
      split at h
      · cases h
      · cases h
        unfold Address.isWritable
        dsimp only
        rw [Int.sub_add_cancel]
        exact Number.isWritable_of_natOfDigits hrow
  · unfold readCell at h
    split at h
    · rename_i hread
      cases h
      exact (Address.spellable_of_ofText? hread).isWritable
    · cases h

/-- A row that was read can be written again. -/
theorem isWritable_of_parse {s : String} {f : Formula} (h : parse s = .ok f) :
    ∀ r ∈ f.references, r.Corners (·.isWritable) :=
  corners_of_parse (fun _ _ => Draft.isWritable_of_readAddress) h

/-- Between rows that are short enough to write all are. -/
theorem Reference.Corners.isWritable_of_names {r : Reference} (h : r.Corners (·.isWritable))
    {b : Address} (hb : r.Names b) : b.isWritable := by
  cases r with
  | cell a => exact hb ▸ h
  | range first last =>
    obtain ⟨hfirst, hlast⟩ := h
    obtain ⟨htop, hbottom, -, -⟩ := hb
    simp only [Rectangle.ofCorners] at htop hbottom
    unfold Address.isWritable Number.isWritable at *
    generalize Number.tenTo Number.maxDigits = limit at *
    rw [decide_eq_true_eq] at *
    omega

theorem isWritable_of_names {s : String} {f : Formula} (h : parse s = .ok f) {b : Address}
    (hb : f.Names b) : b.isWritable := by
  obtain ⟨r, hr, hnames⟩ := hb
  exact (isWritable_of_parse h r hr).isWritable_of_names hnames

end Spreadsheet.Formula
