import DirectiveQuery.Files
import DirectiveQuery.Proofs.Outcome

/-
  Writing files. Whether a name leads to a place for a file depends on the directories alone
  (`reaches_congr`), and writing makes none: the directory that a new file is put into was there
  before, and so were those above it (`hasDirectory_put`). So what was written is read back, and
  every other file reads as before (`read_write`, `read_write_other`).
-/
namespace DirectiveQuery

namespace Location

variable {l m n : Location}

theorem isBelow_iff :
    l.isBelow m = true ↔ l.base = m.base ∧ m.names <+: l.names ∧ l.names ≠ m.names := by
  simp [isBelow, and_assoc]

theorem isBelow_trans (h : l.isBelow m = true) (h' : m.isBelow n = true) :
    l.isBelow n = true := by
  rw [isBelow_iff] at *
  obtain ⟨hbase, hnames, hne⟩ := h
  obtain ⟨hbase', hnames', -⟩ := h'
  refine ⟨hbase.trans hbase', hnames'.trans hnames, fun heq => hne ?_⟩
  exact (heq ▸ hnames').eq_of_length_le hnames.length_le

theorem isBelow_parent (h : l.names ≠ []) : l.isBelow l.parent = true := by
  obtain ⟨base, names⟩ := l
  cases names with
  | nil => exact absurd rfl h
  | cons name names =>
    refine isBelow_iff.2 ⟨rfl, List.dropLast_prefix _, fun heq => ?_⟩
    simpa [parent] using congrArg List.length heq

theorem names_parent (h : l.names = []) : l.parent.names = [] := by
  obtain ⟨base, names⟩ := l
  obtain rfl : names = [] := h
  cases base <;> rfl

/-- A part of a name stays, leads up, or leads down. -/
theorem follow_cases (l : Location) (part : List Char) :
    l.follow part = l ∨ l.follow part = l.parent ∨
      l.follow part = { l with names := l.names ++ [part] } := by
  unfold follow
  split_ifs <;> simp

/-- The last part of a name leads to its location from where the parts before it lead. -/
theorem ofName_eq_follow {name : String} {part : List Char}
    (h : (parts name).getLast? = some part) :
    ofName name = ((parts name).dropLast.foldl follow (origin name)).follow part := by
  obtain ⟨before, hparts⟩ := List.getLast?_eq_some_iff.1 h
  rw [ofName, hparts, List.dropLast_concat, List.foldl_append]
  rfl

end Location

namespace Files

variable {files files' : Files} {l d next : Location} {part : List Char}
  {name other content : String}

/-! ## Directories -/

theorem hasDirectory_iff : files.hasDirectory l = true ↔ l.names = [] ∨ l ∈ systemDirectories ∨
    ∃ entry ∈ files.entries, (Location.ofName entry.1).isBelow l = true := by
  simp [hasDirectory, or_assoc]

theorem length_names_of_mem_systemDirectories (h : l ∈ systemDirectories) :
    l.names.length = 1 := by
  obtain ⟨name, -, rfl⟩ := List.mem_map.1 h
  rfl

/-- Above a directory there are directories only. -/
theorem hasDirectory_of_isBelow (h : files.hasDirectory d = true) (hl : d.isBelow l = true) :
    files.hasDirectory l = true := by
  obtain ⟨-, hnames, hne⟩ := Location.isBelow_iff.1 hl
  have hlt : l.names.length < d.names.length :=
    Nat.lt_of_le_of_ne hnames.length_le fun heq => hne (hnames.eq_of_length heq).symm
  rw [hasDirectory_iff] at *
  obtain hd | hd | ⟨entry, hmem, hd⟩ := h
  · rw [hd] at hlt
    exact absurd hlt (Nat.not_lt_zero _)
  · rw [length_names_of_mem_systemDirectories hd] at hlt
    exact .inl (List.length_eq_zero_iff.1 (Nat.lt_one_iff.1 hlt))
  · exact .inr (.inr ⟨entry, hmem, Location.isBelow_trans hd hl⟩)

theorem hasDirectory_of_names (h : l.names = []) : files.hasDirectory l = true :=
  hasDirectory_iff.2 (.inl h)

theorem hasDirectory_parent (h : files.hasDirectory d = true) :
    files.hasDirectory d.parent = true := by
  by_cases hd : d.names = []
  · exact hasDirectory_of_names (Location.names_parent hd)
  · exact hasDirectory_of_isBelow h (Location.isBelow_parent hd)

/-- What is above a place for a file in a directory is that directory or above it. -/
theorem hasDirectory_of_follow_isBelow (hd : files.hasDirectory d = true)
    (hp : files.hasDirectory (d.follow part) = false)
    (hl : (d.follow part).isBelow l = true) : files.hasDirectory l = true := by
  -- a part that stays or leads up ends in a directory, where no file can be
  obtain h | h | h := d.follow_cases part
  · rw [h, hd] at hp
    contradiction
  · rw [h, hasDirectory_parent hd] at hp
    contradiction
  · rw [h] at hl
    obtain ⟨hbase, hnames, hne⟩ := Location.isBelow_iff.1 hl
    have hprefix : l.names <+: d.names :=
      (List.prefix_concat_iff.1 hnames).resolve_left fun heq => hne heq.symm
    by_cases heq : d.names = l.names
    · obtain rfl : d = l := by
        cases d; cases l
        simp_all
      exact hd
    · exact hasDirectory_of_isBelow hd (Location.isBelow_iff.2 ⟨hbase, hprefix, heq⟩)

/-! ## The walk along a name -/

theorem enter_eq_ok : files.enter l part = .ok next ↔
    isTooLong part = false ∧ files.hasDirectory (l.follow part) = true ∧ l.follow part = next := by
  simp only [enter, except_ite_error_eq_ok, Bool.not_eq_true]
  refine and_congr_right fun _ => ?_
  by_cases h : files.hasDirectory (l.follow part) = true
  · simp [h]
  · rw [if_neg h]
    split <;> simp [h]

theorem walk_congr (h : ∀ l, files.hasDirectory l = files'.hasDirectory l)
    (parts : List (List Char)) (l : Location) :
    parts.foldlM files.enter l = .ok d ↔ parts.foldlM files'.enter l = .ok d := by
  induction parts generalizing l with
  | nil => rfl
  | cons part parts ih => simp only [List.foldlM_cons, except_bind_eq_ok, enter_eq_ok, h, ih]

/-- The walk follows the parts, from directory to directory. -/
theorem walk_eq_ok {parts : List (List Char)} (h : parts.foldlM files.enter l = .ok d)
    (hl : files.hasDirectory l = true) :
    parts.foldl Location.follow l = d ∧ files.hasDirectory d = true := by
  induction parts generalizing l with
  | nil =>
    cases h
    exact ⟨rfl, hl⟩
  | cons part parts ih =>
    rw [List.foldlM_cons] at h
    obtain ⟨next, hnext, h⟩ := except_bind_eq_ok.1 h
    obtain ⟨-, hdirectory, rfl⟩ := enter_eq_ok.1 hnext
    exact ih h hdirectory

theorem locate_eq_ok {last : Option (List Char)} : files.locate name = .ok (d, last) ↔
    name.toList.contains (Char.ofNat 0) = false ∧ name.isEmpty = false ∧
    ¬ maxName < Text.byteLength name.toList ∧
    (Location.parts name).dropLast.foldlM files.enter (Location.origin name) = .ok d ∧
    (Location.parts name).getLast? = last := by
  simp only [locate, except_ite_error_eq_ok, Bool.not_eq_true, except_bind_eq_ok, pure,
    Except.pure, Except.ok.injEq, Prod.mk.injEq]
  grind

/-! ## Places for files -/

/-- The name leads through directories to a place that is none and asks for none. -/
def Reaches (files : Files) (name : String) : Prop :=
  ∃ directory part, files.locate name = .ok (directory, some part) ∧ isTooLong part = false ∧
    files.hasDirectory (directory.follow part) = false ∧ asksDirectory name = false

theorem reaches_congr (h : ∀ l, files.hasDirectory l = files'.hasDirectory l) :
    files.Reaches name ↔ files'.Reaches name := by
  simp only [Reaches, locate_eq_ok, walk_congr h, h]

/-- The location of the name is one part behind the directory that the walk ends in. -/
theorem locate_spec (h : files.locate name = .ok (d, some part)) :
    Location.ofName name = d.follow part ∧ files.hasDirectory d = true := by
  obtain ⟨-, -, -, hwalk, hlast⟩ := locate_eq_ok.1 h
  obtain ⟨rfl, hd⟩ := walk_eq_ok hwalk (hasDirectory_of_names rfl)
  exact ⟨Location.ofName_eq_follow hlast, hd⟩

theorem read_eq_ok : files.read name = .ok content ↔
    files.Reaches name ∧ files.at? (Location.ofName name) = some content := by
  unfold read
  rw [except_bind_eq_ok]
  constructor
  · rintro ⟨⟨d, last⟩, hlocate, h⟩
    cases last with
    | none => cases h
    | some part =>
      simp only [except_ite_error_eq_ok, Bool.not_eq_true] at h
      obtain ⟨hlong, hdirectory, h⟩ := h
      rw [(locate_spec hlocate).1]
      cases hcontent : files.at? (d.follow part) with
      | none => simp [hcontent] at h
      | some text =>
        simp only [hcontent, except_ite_error_eq_ok, Bool.not_eq_true, Except.ok.injEq] at h
        exact ⟨⟨d, part, hlocate, hlong, hdirectory, h.1⟩, congrArg some h.2⟩
  · rintro ⟨⟨d, part, hlocate, hlong, hdirectory, hasks⟩, hcontent⟩
    rw [(locate_spec hlocate).1] at hcontent
    exact ⟨_, hlocate, by simp [hlong, hdirectory, hasks, hcontent]⟩

/-- The files with a content at a name; devices keep nothing. -/
def put (files : Files) (name content : String) : Files :=
  if (Device.at? (Location.ofName name)).isSome then files else ⟨(name, content) :: files.entries⟩

theorem write_eq_ok : files.write name content = .ok files' ↔
    files.Reaches name ∧ files.put name content = files' := by
  unfold write
  rw [except_bind_eq_ok]
  constructor
  · rintro ⟨⟨d, last⟩, hlocate, h⟩
    cases last with
    | none => cases h
    | some part =>
      simp only [except_ite_error_eq_ok, Bool.not_eq_true] at h
      obtain ⟨hasks, hlong, hdirectory, h⟩ := h
      rw [← (locate_spec hlocate).1, ← apply_ite Except.ok, Except.ok.injEq] at h
      exact ⟨⟨d, part, hlocate, hlong, hdirectory, hasks⟩, h⟩
  · rintro ⟨⟨d, part, hlocate, hlong, hdirectory, hasks⟩, rfl⟩
    refine ⟨_, hlocate, ?_⟩
    simp only [hlong, hdirectory, hasks, Bool.false_eq_true, if_false]
    rw [← (locate_spec hlocate).1, ← apply_ite Except.ok]
    rfl

/-! ## After a file is written -/

theorem put_device (h : (Device.at? (Location.ofName name)).isSome = true) :
    files.put name content = files := if_pos h

theorem put_file (h : Device.at? (Location.ofName name) = none) :
    files.put name content = ⟨(name, content) :: files.entries⟩ := by
  simp [put, h]

/-- A file makes no directory that was not there. -/
theorem hasDirectory_put (h : files.Reaches name) (l : Location) :
    (files.put name content).hasDirectory l = files.hasDirectory l := by
  unfold put
  split_ifs with hdevice
  · rfl
  · obtain ⟨d, part, hlocate, -, hpart, -⟩ := h
    obtain ⟨hname, hd⟩ := locate_spec hlocate
    rw [Bool.eq_iff_iff, hasDirectory_iff, hasDirectory_iff]
    constructor
    · rintro (hl | hl | ⟨entry, hmem, hl⟩)
      · exact .inl hl
      · exact .inr (.inl hl)
      · obtain rfl | hmem := List.mem_cons.1 hmem
        · -- the new file is below what its directory was below before
          rw [hname] at hl
          exact hasDirectory_iff.1 (hasDirectory_of_follow_isBelow hd hpart hl)
        · exact .inr (.inr ⟨entry, hmem, hl⟩)
    · rintro (hl | hl | ⟨entry, hmem, hl⟩)
      · exact .inl hl
      · exact .inr (.inl hl)
      · exact .inr (.inr ⟨entry, List.mem_cons_of_mem _ hmem, hl⟩)

theorem reaches_put (h : files.Reaches name) (other : String) :
    (files.put name content).Reaches other ↔ files.Reaches other :=
  reaches_congr (hasDirectory_put h)

theorem at?_put (h : Device.at? (Location.ofName name) = none) :
    (files.put name content).at? (Location.ofName name) = some content := by
  simp [put_file h, at?, h]

theorem at?_put_other (h : l ≠ Location.ofName name) :
    (files.put name content).at? l = files.at? l := by
  unfold put
  split_ifs with hdevice
  · rfl
  · simp [at?, Ne.symm h]

/-- What was written is read back, unless it was written to a device. -/
theorem read_write (h : files.write name content = .ok files')
    (hfile : Device.at? (Location.ofName name) = none) : files'.read name = .ok content := by
  obtain ⟨hreaches, rfl⟩ := write_eq_ok.1 h
  exact read_eq_ok.2 ⟨(reaches_put hreaches name).2 hreaches, at?_put hfile⟩

/-- Every other file reads as before. -/
theorem read_write_other (h : files.write name content = .ok files')
    (hne : Location.ofName other ≠ Location.ofName name) (text : String) :
    files'.read other = .ok text ↔ files.read other = .ok text := by
  obtain ⟨hreaches, rfl⟩ := write_eq_ok.1 h
  rw [read_eq_ok, read_eq_ok, reaches_put hreaches, at?_put_other hne]

/-- A device is written to without a trace. -/
theorem write_device (h : files.write name content = .ok files')
    (hdevice : (Device.at? (Location.ofName name)).isSome = true) : files' = files := by
  obtain ⟨-, rfl⟩ := write_eq_ok.1 h
  exact put_device hdevice

end Files

end DirectiveQuery
