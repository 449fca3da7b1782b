import ServiceKit.Lib.Run
import ServiceKit.Sql2pb.Core

/-!
# `Sql2pb.Correctness.Types` — where the columns of a database go

`typesFromColumns` takes the columns one by one. After those in `done`, the messages are one for each camel case table
name among them, holding the columns of the tables with this name in order and numbered from 1 (`Files`). One column
keeps this (`addColumn_files`), so a whole run has it (`typesFromColumns_files`); and as tags are numbered along, no
field ever finds its tag in use.
-/

namespace ServiceKit
namespace Sql2pb

open Lib

variable {U : Unicode} {W : Words}

/-! ## Tags -/

theorem appendField_ok {m : Message} (h : m.fields.map MessageField.tag = List.range' 1 m.fields.length)
    (typ name comment : Text) :
    m.appendField ⟨typ, name, m.fields.length + 1, comment⟩ =
      .ok { m with fields := m.fields ++ [⟨typ, name, m.fields.length + 1, comment⟩] } := by
  have hfree : m.fields.find? (fun f => f.tag = m.fields.length + 1) = none := by
    rw [List.find?_eq_none]
    intro f hf htag
    have hmem : f.tag ∈ m.fields.map MessageField.tag := List.mem_map_of_mem hf
    rw [h, List.mem_range'_1, of_decide_eq_true htag] at hmem
    omega
  rw [Message.appendField, hfree]

/-- The strings become the fields of the enum, numbered along. -/
theorem appendStrings_eq {i : Nat} {e : Enum} (h : e.fields.map EnumField.tag = List.range i) (ss : List Text) :
    appendStrings U e i ss =
      .ok { e with fields := e.fields ++ (ss.zipIdx i).map fun x => newEnumField U x.1 x.2 } := by
  induction ss generalizing i e with
  | nil => simp [appendStrings]
  | cons s ss ih =>
      have hfree : e.fields.find? (fun f => f.tag = (newEnumField U s i).tag) = none := by
        rw [List.find?_eq_none]
        intro f hf htag
        have hmem : f.tag ∈ e.fields.map EnumField.tag := List.mem_map_of_mem hf
        rw [h, List.mem_range, of_decide_eq_true htag] at hmem
        exact Nat.lt_irrefl i hmem
      have happend : e.appendField (newEnumField U s i) = .ok { e with fields := e.fields ++ [newEnumField U s i] } := by
        rw [Enum.appendField, hfree]
      have htags : (e.fields ++ [newEnumField U s i]).map EnumField.tag = List.range (i + 1) := by
        rw [List.map_append, h, List.range_succ]
        rfl
      have hrest := @ih (i + 1) { e with fields := e.fields ++ [newEnumField U s i] } htags
      rw [appendStrings, happend]
      show appendStrings U { e with fields := e.fields ++ [newEnumField U s i] } (i + 1) ss = _
      rw [hrest, List.zipIdx_cons, List.map_cons]
      show Except.ok { e with fields := (e.fields ++ [newEnumField U s i]) ++ _ } = _
      rw [List.append_assoc, List.singleton_append]

/-- The enum that is made of a list of strings. -/
theorem newEnumFromStrings_eq (name comment : Text) (ss : List Text) :
    newEnumFromStrings U name comment ss = .ok ⟨name, comment, ss.zipIdx.map fun x => newEnumField U x.1 x.2⟩ :=
  appendStrings_eq rfl ss

/-! ## One column -/

def isEnumColumn (U : Unicode) (c : Column) : Bool := isInSlice ["enum".toList, "set".toList] (lower U c.dataType)

/-- The names of the enums that a column adds. -/
def enumNames (U : Unicode) (W : Words) (c : Column) : List Text := if isEnumColumn U c then [enumName W c] else []

theorem parseEnum_cases (s : Schema) (c : Column) :
    parseEnum U W s c = .error .panic ∨
      ∃ s', parseEnum U W s c = .ok s' ∧ s'.enums.map Enum.name = s.enums.map Enum.name ++ [enumName W c] := by
  rw [parseEnum]
  cases findEnumList c.columnType with
  | none => exact Or.inl rfl
  | some list =>
      have hnew := @newEnumFromStrings_eq U (enumName W c) c.columnComment (fieldsFunc enumSeparator list)
      right
      refine ⟨_, bind_ok_iff.mpr ⟨_, hnew, rfl⟩, ?_⟩
      show (s.enums ++ [_]).map Enum.name = _
      rw [List.map_append, List.map_singleton]

theorem enums_appendImport (s : Schema) (imports : Text) : (s.appendImport imports).enums = s.enums := by
  rw [Schema.appendImport]
  split
  · rfl
  · rfl

theorem enumNames_eq_nil {c : Column} (h : ¬isEnumColumn U c = true) : enumNames U W c = [] := if_neg h

theorem enumNames_of_isEnumColumn {c : Column} (h : isEnumColumn U c = true) : enumNames U W c = [enumName W c] :=
  if_pos h

/-- The switch over the column types ends in a panic, or in a type and the enums of the column. -/
def Switched (U : Unicode) (W : Words) (s : Schema) (c : Column) (r : Except Failure (Schema × Text)) : Prop :=
  r = .error .panic ∨ ∃ s' t, r = .ok (s', t) ∧ s'.enums.map Enum.name = s.enums.map Enum.name ++ enumNames U W c

/-- A case that leaves the enums alone. -/
theorem switched_plain {s s' : Schema} {c : Column} (t : Text) (h : ¬isEnumColumn U c = true)
    (hs : s'.enums = s.enums) : Switched U W s c (.ok (s', t)) :=
  Or.inr ⟨s', t, rfl, by rw [enumNames_eq_nil h, hs, List.append_nil]⟩

theorem switched_enum {s : Schema} {c : Column} (h : isEnumColumn U c = true) :
    Switched U W s c (do .ok (← parseEnum U W s c, enumName W c)) := by
  rcases parseEnum_cases (U := U) (W := W) s c with hpanic | ⟨s', hok, hnames⟩
  · rw [hpanic]
    exact Or.inl rfl
  · rw [hok]
    refine Or.inr ⟨s', enumName W c, rfl, ?_⟩
    rw [hnames, enumNames_of_isEnumColumn h]

theorem not_isEnumColumn_of_string {c : Column}
    (h : isInSlice ["char".toList, "varchar".toList, "text".toList, "longtext".toList, "mediumtext".toList,
      "tinytext".toList] (lower U c.dataType) = true) : ¬isEnumColumn U c = true := by
  obtain ⟨t, ht, heq⟩ := List.any_eq_true.mp h
  have hdisjoint : ∀ t ∈ ["char".toList, "varchar".toList, "text".toList, "longtext".toList, "mediumtext".toList,
      "tinytext".toList], isInSlice ["enum".toList, "set".toList] t = false := by decide
  rw [isEnumColumn, ← of_decide_eq_true heq, hdisjoint t ht]
  decide

theorem fieldType_switched (s : Schema) (c : Column) : Switched U W s c (fieldType U W s c) := by
  -- the cases in the order of the source; all after that of the enumerations know that the column is none
  refine iteInduction (motive := Switched U W s c)
    (fun h => switched_plain _ (not_isEnumColumn_of_string h) rfl) (fun _ => ?_)
  refine iteInduction (motive := Switched U W s c) switched_enum (fun henum => ?_)
  refine iteInduction (motive := Switched U W s c) (fun _ => switched_plain _ henum rfl) (fun _ => ?_)
  refine iteInduction (motive := Switched U W s c)
    (fun _ => switched_plain _ henum (enums_appendImport s _)) (fun _ => ?_)
  refine iteInduction (motive := Switched U W s c) (fun _ => switched_plain _ henum rfl) (fun _ => ?_)
  refine iteInduction (motive := Switched U W s c) (fun _ => switched_plain _ henum rfl) (fun _ => ?_)
  refine iteInduction (motive := Switched U W s c) (fun _ => switched_plain _ henum rfl) (fun _ => ?_)
  refine iteInduction (motive := Switched U W s c) (fun _ => switched_plain _ henum rfl) (fun _ => ?_)
  exact iteInduction (motive := Switched U W s c) (fun _ => switched_plain _ henum rfl)
    (fun _ => switched_plain _ henum rfl)

/-! ## Filing a column -/

/-- A field is made from a column. -/
def FieldOf (U : Unicode) (W : Words) (f : MessageField) (c : Column) : Prop :=
  f.name = c.columnName ∧ f.comment = c.columnComment ∧ ∃ s s', fieldType U W s c = .ok (s', f.typ)

/-- A message holds these columns, in order and numbered from 1. -/
structure Holds (U : Unicode) (W : Words) (m : Message) (cols : List Column) : Prop where
  fields : List.Forall₂ (FieldOf U W) m.fields cols
  tags : m.fields.map MessageField.tag = List.range' 1 m.fields.length

theorem Holds.fieldNames {m : Message} {cols : List Column} (h : Holds U W m cols) :
    m.fields.map MessageField.name = cols.map Column.columnName := by
  rw [← List.forall₂_eq_eq_eq, List.forall₂_map_left_iff, List.forall₂_map_right_iff]
  exact h.fields.imp (fun f c hf => hf.1)

theorem holds_nil (name comment style : Text) : Holds U W ⟨name, comment, style, []⟩ [] := ⟨List.Forall₂.nil, rfl⟩

/-- The code has a protobuf type for the column. -/
def Supported (U : Unicode) (W : Words) (c : Column) : Prop :=
  ∀ s, ∃ s' t, fieldType U W s c = .ok (s', t) ∧ t ≠ []

/-- How a run ends at a column that has no type. -/
structure Refused (U : Unicode) (W : Words) (c : Column) (e : Failure) : Prop where
  unsupported : ¬Supported U W c
  failure : e = .panic ∨ e = .unsupported c.dataType c.tableName c.columnName

theorem Refused.not_tagInUse {c : Column} {e : Failure} (h : Refused U W c e) (tag : Nat) (name : Text) :
    e ≠ .tagInUse tag name := by
  rcases h.failure with rfl | rfl
  · exact nofun
  · exact nofun

/-- **`parseColumn`** has no type for the column, or it files it. -/
theorem parseColumn_cases {m : Message} {cols : List Column} (hm : Holds U W m cols) (s : Schema) (c : Column) :
    (∃ e, parseColumn U W s m c = .error e ∧ Refused U W c e) ∨
      ∃ s' m', parseColumn U W s m c = .ok (s', m') ∧ Holds U W m' (cols ++ [c]) ∧ m'.name = m.name ∧
        m'.style = m.style ∧ s'.enums.map Enum.name = s.enums.map Enum.name ++ enumNames U W c := by
  rw [parseColumn]
  rcases fieldType_switched (U := U) (W := W) s c with hpanic | ⟨s', t, hok, henums⟩
  · rw [hpanic]
    refine Or.inl ⟨.panic, rfl, ?_, Or.inl rfl⟩
    intro hsup
    obtain ⟨s', t, hok, -⟩ := hsup s
    rw [hok] at hpanic
    cases hpanic
  · rw [hok]
    simp only [bind, Except.bind]
    by_cases ht : t = []
    · rw [if_pos ht]
      refine Or.inl ⟨_, rfl, ?_, Or.inr rfl⟩
      intro hsup
      obtain ⟨s'', t', hok', ht'⟩ := hsup s
      cases hok.symm.trans hok'
      exact ht' ht
    · rw [if_neg ht, appendField_ok hm.tags]
      refine Or.inr ⟨s', _, rfl, ?_, rfl, rfl, henums⟩
      constructor
      · exact List.rel_append hm.fields (List.Forall₂.cons ⟨rfl, rfl, s, s', hok⟩ List.Forall₂.nil)
      · rw [List.map_append, hm.tags, List.length_append, List.map_singleton, List.length_singleton, List.range'_concat]
        simp [Nat.add_comm]

/-! ## The messages after some columns -/

/-- The name of the message that a column is filed under. -/
def messageName (W : Words) (c : Column) : Text := W.snakeToCamel c.tableName

/-- The columns of the tables with a camel case name. -/
def columnsUnder (W : Words) (name : Text) (cols : List Column) : List Column :=
  cols.filter (fun c => messageName W c = name)

/-- What `typesFromColumns` has after the columns in `done`. -/
structure Files (U : Unicode) (W : Words) (style : Text) (done : List Column) (s : Schema) (mm : MessageMap) : Prop where
  nodup : (mm.map Message.name).Nodup
  names : ∀ n, n ∈ mm.map Message.name ↔ ∃ c ∈ done, messageName W c = n
  holds : ∀ m ∈ mm, Holds U W m (columnsUnder W m.name done) ∧ m.style = style
  enums : s.enums.map Enum.name = done.flatMap (enumNames U W)

theorem files_nil (style : Text) : Files U W style [] ⟨[], [], []⟩ [] where
  nodup := List.nodup_nil
  names n := by simp
  holds m hm := absurd hm nofun
  enums := Eq.refl _

theorem columnsUnder_append (n : Text) (cols : List Column) (c : Column) :
    columnsUnder W n (cols ++ [c]) = columnsUnder W n cols ++ if messageName W c = n then [c] else [] := by
  rw [columnsUnder, List.filter_append, ← columnsUnder, List.filter_singleton]
  simp

theorem columnsUnder_eq_nil {n : Text} {cols : List Column} (h : ¬∃ c ∈ cols, messageName W c = n) :
    columnsUnder W n cols = [] := by
  rw [columnsUnder, List.filter_eq_nil_iff]
  intro c hc hn
  exact h ⟨c, hc, of_decide_eq_true hn⟩

/-- The message that a column is filed under: it has that name, and what was filed under it. -/
theorem Files.get {style : Text} {done : List Column} {s : Schema} {mm : MessageMap} (h : Files U W style done s mm)
    (c : Column) :
    (mm.get style (messageName W c) c).name = messageName W c ∧
      Holds U W (mm.get style (messageName W c) c) (columnsUnder W (messageName W c) done) ∧
        (mm.get style (messageName W c) c).style = style := by
  rw [MessageMap.get]
  cases hfind : mm.find? (fun m => m.name = messageName W c) with
  | none =>
      have hnew : ¬∃ d ∈ done, messageName W d = messageName W c := by
        intro hd
        obtain ⟨m, hm, hname⟩ := List.mem_map.mp ((h.names _).mpr hd)
        exact List.find?_eq_none.mp hfind m hm (decide_eq_true hname)
      rw [columnsUnder_eq_nil hnew]
      exact ⟨rfl, holds_nil _ _ _, rfl⟩
  | some m =>
      have hname : m.name = messageName W c := by simpa using List.find?_some hfind
      obtain ⟨hholds, hstyle⟩ := h.holds m (List.mem_of_find?_eq_some hfind)
      rw [hname] at hholds
      exact ⟨hname, hholds, hstyle⟩

theorem map_name_set (mm : MessageMap) (msg : Message) :
    (mm.set msg).map Message.name =
      if msg.name ∈ mm.map Message.name then mm.map Message.name else mm.map Message.name ++ [msg.name] := by
  rw [MessageMap.set]
  by_cases h : msg.name ∈ mm.map Message.name
  · have hany : mm.any (fun m => m.name = msg.name) = true := by
      obtain ⟨m, hm, hname⟩ := List.mem_map.mp h
      exact List.any_eq_true.mpr ⟨m, hm, decide_eq_true hname⟩
    rw [if_pos hany, if_pos h, List.map_map]
    apply List.map_congr_left
    intro m _
    show (if m.name = msg.name then msg else m).name = m.name
    split
    · next hname => exact hname.symm
    · rfl
  · have hany : ¬mm.any (fun m => m.name = msg.name) = true := by
      intro hany
      obtain ⟨m, hm, hname⟩ := List.any_eq_true.mp hany
      exact h (List.mem_map.mpr ⟨m, hm, of_decide_eq_true hname⟩)
    rw [if_neg hany, if_neg h, List.map_append]
    rfl

theorem mem_set {mm : MessageMap} {msg m : Message} (h : m ∈ mm.set msg) :
    m = msg ∨ (m ∈ mm ∧ m.name ≠ msg.name) := by
  rw [MessageMap.set] at h
  split at h
  · obtain ⟨m', hm', heq⟩ := List.mem_map.mp h
    split at heq
    · exact Or.inl heq.symm
    · next hne =>
        subst heq
        exact Or.inr ⟨hm', hne⟩
  · next hany =>
      rcases List.mem_append.mp h with hm | hm
      · refine Or.inr ⟨hm, fun hname => hany ?_⟩
        exact List.any_eq_true.mpr ⟨m, hm, decide_eq_true hname⟩
      · exact Or.inl (List.mem_singleton.mp hm)

/-- **One column.** It is filed, or it has no type. -/
theorem addColumn_files {style : Text} {done : List Column} {s : Schema} {mm : MessageMap}
    (h : Files U W style done s mm) (c : Column) :
    (∃ e, addColumn U W style s mm c = .error e ∧ Refused U W c e) ∨
      ∃ s' mm', addColumn U W style s mm c = .ok (s', mm') ∧ Files U W style (done ++ [c]) s' mm' := by
  obtain ⟨hname, hholds, hstyle⟩ := h.get c
  rw [addColumn]
  rcases parseColumn_cases hholds s c with ⟨e, herr, href⟩ | ⟨s', m', hok, hholds', hname', hstyle', henums⟩
  · rw [← messageName, herr]
    exact Or.inl ⟨e, rfl, href⟩
  · rw [← messageName, hok]
    refine Or.inr ⟨s', mm.set m', rfl, ?_⟩
    rw [hname] at hname'
    constructor
    · rw [map_name_set]
      split
      · exact h.nodup
      · next hnew => exact List.nodup_append.mpr ⟨h.nodup, List.nodup_singleton _, by simpa using hnew⟩
    · intro n
      have hdone : (∃ d ∈ done ++ [c], messageName W d = n) ↔ n ∈ mm.map Message.name ∨ n = m'.name := by
        rw [h.names, hname']
        constructor
        · rintro ⟨d, hd, rfl⟩
          rcases List.mem_append.mp hd with hd | hd
          · exact Or.inl ⟨d, hd, rfl⟩
          · rw [List.mem_singleton.mp hd]
            exact Or.inr rfl
        · rintro (⟨d, hd, rfl⟩ | rfl)
          · exact ⟨d, List.mem_append_left _ hd, rfl⟩
          · exact ⟨c, List.mem_append_right _ (List.mem_singleton.mpr rfl), rfl⟩
      rw [hdone, map_name_set]
      split
      · next hold =>
          constructor
          · exact Or.inl
          · rintro (hn | rfl)
            · exact hn
            · exact hold
      · simp
    · intro m hm
      rcases mem_set hm with rfl | ⟨hmem, hne⟩
      · rw [hname', columnsUnder_append, if_pos rfl]
        exact ⟨hholds', hstyle'.trans hstyle⟩
      · rw [hname'] at hne
        rw [columnsUnder_append, if_neg (Ne.symm hne), List.append_nil]
        exact h.holds m hmem
    · rw [henums, h.enums, List.flatMap_append]
      simp

/-! ## All columns -/

variable {style : Text} {ignoreTables ignoreColumns : List Text} {order : MapOrder}

/-- The columns that `typesFromColumns` does not ignore. -/
def keptColumns (ignoreTables ignoreColumns : List Text) (cols : List Column) : List Column :=
  cols.filter (keptColumn ignoreTables ignoreColumns)

/-- **A whole run.** The kept columns are filed, or one of them has no type. -/
theorem addColumns_files {done : List Column} {s : Schema} {mm : MessageMap} (h : Files U W style done s mm)
    (cols : List Column) :
    (∃ e, addColumns U W style ignoreTables ignoreColumns s mm cols = .error e ∧
        ∃ c ∈ keptColumns ignoreTables ignoreColumns cols, Refused U W c e) ∨
      ∃ s' mm', addColumns U W style ignoreTables ignoreColumns s mm cols = .ok (s', mm') ∧
        Files U W style (done ++ keptColumns ignoreTables ignoreColumns cols) s' mm' := by
  induction cols generalizing done s mm with
  | nil =>
      refine Or.inr ⟨s, mm, rfl, ?_⟩
      rw [keptColumns, List.filter_nil, List.append_nil]
      exact h
  | cons c cols ih =>
      rw [addColumns, keptColumns, List.filter_cons, ← keptColumns]
      by_cases hkept : keptColumn ignoreTables ignoreColumns c = true
      · rw [if_pos hkept, if_pos hkept]
        rcases addColumn_files h c with ⟨e, herr, href⟩ | ⟨s', mm', hok, hfiles⟩
        · rw [herr]
          exact Or.inl ⟨e, rfl, c, List.mem_cons_self, href⟩
        · rw [hok]
          rcases ih hfiles with ⟨e, herr, d, hd, href⟩ | hrest
          · exact Or.inl ⟨e, herr, d, List.mem_cons_of_mem c hd, href⟩
          · rw [List.append_assoc, List.singleton_append] at hrest
            exact Or.inr hrest
      · rw [if_neg hkept, if_neg hkept]
        exact ih h

/-- **`GenerateSchema`** has a message for each camel case table name, or it has no type for a column. -/
theorem generateSchema_cases (cols : List Column) :
    (∃ e, generateSchema U W order cols ignoreTables ignoreColumns style = .error e ∧
        ∃ c ∈ keptColumns ignoreTables ignoreColumns cols, Refused U W c e) ∨
      ∃ s s' mm, generateSchema U W order cols ignoreTables ignoreColumns style = .ok s ∧
        s.messages.Perm mm ∧ s.enums.Perm s'.enums ∧
          Files U W style (keptColumns ignoreTables ignoreColumns cols) s' mm := by
  rw [generateSchema, typesFromColumns]
  rcases addColumns_files (files_nil style) cols with ⟨e, herr, href⟩ | ⟨s', mm, hok, hfiles⟩
  · rw [herr]
    exact Or.inl ⟨e, rfl, href⟩
  · rw [hok]
    refine Or.inr ⟨_, s', mm, rfl, ?_, ?_, hfiles⟩
    · exact (List.perm_insertionSort _ _).trans (order.perm mm)
    · exact List.perm_insertionSort _ _

end Sql2pb
end ServiceKit
