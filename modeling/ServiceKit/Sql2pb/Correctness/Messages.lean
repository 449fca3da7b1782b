import ServiceKit.Sql2pb.Correctness.FieldNames
import ServiceKit.Sql2pb.Correctness.Types

/-!
# `Sql2pb.Correctness.Messages` — when the messages of a table are valid protobuf

The generators number the fields that they print from 1, so tags are never at fault. Names can be: the default message
and the List request convert the names of the columns, and the List request has two fields of its own. A table's
messages are valid when no two columns are spelled alike in the field style, nor one and a field of the List request
(`tableValid_iff`).
-/

namespace ServiceKit
namespace Sql2pb

open Lib

variable {U : Unicode} {W : Words} {order : MapOrder} {style : Text} {ignoreTables ignoreColumns : List Text}

/-! ## Renumbering -/

theorem renumber_tags (style : Text) (skip : List Text) (k : Nat) (fs : List MessageField) :
    (renumber U style skip k fs).map MessageField.tag = List.range' (k + 1) (renumber U style skip k fs).length := by
  induction fs generalizing k with
  | nil => rfl
  | cons f fs ih =>
      rw [renumber]
      split
      · exact ih k
      · show (k + 1) :: (renumber U style skip (k + 1) fs).map MessageField.tag = _
        rw [ih, List.length_cons, List.range'_succ]

theorem renumber_names (style : Text) (skip : List Text) (k : Nat) (fs : List MessageField) :
    (renumber U style skip k fs).map MessageField.name =
      ((fs.map MessageField.name).filter (fun n => !isInSlice skip n)).map (convertName U style) := by
  induction fs generalizing k with
  | nil => rfl
  | cons f fs ih =>
      rw [renumber, List.map_cons, List.filter_cons]
      cases hskip : isInSlice skip f.name with
      | true => exact ih k
      | false =>
          show convertName U style f.name :: (renumber U style skip (k + 1) fs).map MessageField.name = _
          rw [ih]
          rfl

/-- The columns that the default message and the List request show. -/
def visibleColumns (cols : List Column) : List Column := cols.filter (fun c => !isInSlice hiddenColumns c.columnName)

/-- The field names of these columns. -/
def visibleNames (U : Unicode) (style : Text) (cols : List Column) : List Text :=
  (visibleColumns cols).map (fun c => convertName U style c.columnName)

theorem Holds.renumber_names {m : Message} {cols : List Column} (h : Holds U W m cols) (k : Nat) :
    (renumber U m.style hiddenColumns k m.fields).map MessageField.name = visibleNames U m.style cols := by
  rw [Sql2pb.renumber_names, h.fieldNames, List.filter_map, List.map_map]
  rfl

/-! ## The messages of a table -/

/-- What makes the messages that are printed for a table valid. -/
structure ValidFor (U : Unicode) (cols : List Column) (m : Message) (ms : List Message) : Prop where
  tags : ∀ p ∈ ms, p.fields.map MessageField.tag = List.range' 1 p.fields.length
  names : ∀ p ∈ ms, (p.fields.map MessageField.name).Nodup
  /-- The default message has a field for each visible column, in order. -/
  default : ∃ p ∈ ms, p.name = m.name ∧ p.fields.map MessageField.name = visibleNames U m.style cols
  /-- And so has the List request, after its own. -/
  list : ∃ p ∈ ms, p.name = "List".toList ++ m.name ++ "Req".toList ∧
    p.fields.map MessageField.name = pageFields.map MessageField.name ++ visibleNames U m.style cols

/-- The List request. -/
def listRequest (U : Unicode) (m : Message) : Message :=
  { m with
    name := "List".toList ++ m.name ++ "Req".toList
    fields := pageFields ++ renumber U m.style hiddenColumns pageFields.length m.fields }

/-- A message without fields, or with one of tag 1. -/
def AtMostOne (p : Message) : Prop := p.fields = [] ∨ ∃ f, f.tag = 1 ∧ p.fields = [f]

theorem AtMostOne.of_mem_pair {p q r : Message} (hq : AtMostOne q) (hr : AtMostOne r) (h : p ∈ [q, r]) : AtMostOne p := by
  rcases List.mem_pair.mp h with rfl | rfl
  · exact hq
  · exact hr

theorem atMostOne_nil (name comment style : Text) : AtMostOne ⟨name, comment, style, []⟩ := Or.inl rfl

theorem atMostOne_one (name comment style : Text) {f : MessageField} (h : f.tag = 1) :
    AtMostOne ⟨name, comment, style, [f]⟩ :=
  Or.inr ⟨f, h, rfl⟩

/-- **What is printed for a table**: the default message, the List request, and messages with at most one field. -/
theorem print_spec {m : Message} {ms : List Message} (h : m.print U = some ms) :
    { m with fields := renumber U m.style hiddenColumns 0 m.fields } ∈ ms ∧ listRequest U m ∈ ms ∧
      ∀ p ∈ ms, p = { m with fields := renumber U m.style hiddenColumns 0 m.fields } ∨ p = listRequest U m ∨
        AtMostOne p := by
  rw [Message.print, Message.genRpcGetByIdReqMessage, Message.genRpcSearchReqMessage] at h
  cases hname : lowerFirst U m.name with
  | none =>
      rw [hname] at h
      cases h
  | some lowered =>
      rw [hname] at h
      cases h
      refine ⟨List.mem_cons_self, List.mem_append_right _ List.mem_cons_self, ?_⟩
      intro p hp
      rcases List.mem_append.mp hp with hp | hlist
      · rcases List.mem_append.mp hp with hp | hfind
        · rcases List.mem_append.mp hp with hp | hdel
          · rcases List.mem_append.mp hp with hp | hupdate
            · rcases List.mem_append.mp hp with hdefault | hadd
              · exact Or.inl (List.mem_singleton.mp hdefault)
              · exact Or.inr (Or.inr ((atMostOne_one _ _ _ rfl).of_mem_pair (atMostOne_nil _ _ _) hadd))
            · exact Or.inr (Or.inr ((atMostOne_one _ _ _ rfl).of_mem_pair (atMostOne_nil _ _ _) hupdate))
          · exact Or.inr (Or.inr ((atMostOne_one _ _ _ rfl).of_mem_pair (atMostOne_nil _ _ _) hdel))
        · exact Or.inr (Or.inr ((atMostOne_one _ _ _ rfl).of_mem_pair (atMostOne_one _ _ _ rfl) hfind))
      · rcases List.mem_pair.mp hlist with hreq | hresp
        · exact Or.inr (Or.inl hreq)
        · rw [hresp]
          exact Or.inr (Or.inr (atMostOne_one _ _ _ rfl))

theorem AtMostOne.valid {p : Message} (h : AtMostOne p) :
    p.fields.map MessageField.tag = List.range' 1 p.fields.length ∧ (p.fields.map MessageField.name).Nodup := by
  rcases h with h | ⟨f, hf, h⟩
  · rw [h]
    exact ⟨rfl, List.nodup_nil⟩
  · rw [h, List.map_singleton, List.map_singleton, hf]
    exact ⟨rfl, List.nodup_singleton _⟩

/-- **The messages of a table are valid** when the names of the List request are distinct. -/
theorem validFor_iff {m : Message} {cols : List Column} (hm : Holds U W m cols) {ms : List Message}
    (h : m.print U = some ms) :
    ValidFor U cols m ms ↔ (pageFields.map MessageField.name ++ visibleNames U m.style cols).Nodup := by
  obtain ⟨hdefault, hlist, hall⟩ := print_spec h
  have hlistNames : (listRequest U m).fields.map MessageField.name =
      pageFields.map MessageField.name ++ visibleNames U m.style cols := by
    rw [listRequest, List.map_append, hm.renumber_names]
  constructor
  · intro hv
    rw [← hlistNames]
    exact hv.names _ hlist
  · intro hnodup
    refine ⟨?_, ?_, ⟨_, hdefault, rfl, hm.renumber_names 0⟩, ⟨_, hlist, rfl, hlistNames⟩⟩
    · intro p hp
      rcases hall p hp with rfl | rfl | hone
      · exact renumber_tags _ _ 0 _
      · rw [listRequest, List.map_append, renumber_tags, List.length_append]
        show List.range' 1 2 ++ List.range' (1 + 2) _ = List.range' 1 (2 + _)
        exact List.range'_append_1
      · exact hone.valid.1
    · intro p hp
      rcases hall p hp with rfl | rfl | hone
      · rw [hm.renumber_names]
        exact hnodup.of_append_right
      · rw [hlistNames]
        exact hnodup
      · exact hone.valid.2

/-! ## A table -/

/-- No two of these columns are spelled alike, nor one and a field that the List request has of its own. -/
def Distinguished (U : Unicode) (style : Text) (cols : List Column) : Prop :=
  cols.Pairwise (fun c d => ¬SpelledAlike U style c.columnName d.columnName) ∧
    ∀ f ∈ pageFields, ∀ c ∈ cols, ¬SpelledAlike U style f.name c.columnName

instance (style : Text) (cols : List Column) : Decidable (Distinguished U style cols) :=
  inferInstanceAs (Decidable (_ ∧ _))

theorem nodup_iff_distinguished (style : Text) (cols : List Column) :
    (pageFields.map MessageField.name ++ visibleNames U style cols).Nodup ↔
      Distinguished U style (visibleColumns cols) := by
  have hpage : (pageFields.map MessageField.name).Nodup := by decide
  have hnames : (visibleNames U style cols).Nodup ↔
      (visibleColumns cols).Pairwise (fun c d => ¬SpelledAlike U style c.columnName d.columnName) := by
    rw [visibleNames, List.Nodup, List.pairwise_map]
    simp only [ne_eq, convertName_eq_iff]
  rw [List.nodup_append, hnames, Distinguished]
  constructor
  · rintro ⟨-, hpair, hapart⟩
    refine ⟨hpair, ?_⟩
    intro f hf c hc halike
    apply hapart f.name (List.mem_map_of_mem hf) _ (List.mem_map_of_mem hc)
    rw [← convertName_pageField (U := U) style hf]
    exact (convertName_eq_iff style _ _).mpr halike
  · rintro ⟨hpair, hapart⟩
    refine ⟨hpage, hpair, ?_⟩
    intro a ha b hb heq
    obtain ⟨f, hf, rfl⟩ := List.mem_map.mp ha
    obtain ⟨c, hc, rfl⟩ := List.mem_map.mp hb
    rw [← convertName_pageField (U := U) style hf] at heq
    exact hapart f hf c hc ((convertName_eq_iff style _ _).mp heq)

/-- **No field finds its tag in use.** -/
theorem generateSchema_tagFree (cols : List Column) (tag : Nat) (name : Text) :
    generateSchema U W order cols ignoreTables ignoreColumns style ≠ .error (.tagInUse tag name) := by
  intro h
  rcases generateSchema_cases cols with ⟨e, herr, c, -, href⟩ | ⟨s, s', mm, hok, -⟩
  · cases herr.symm.trans h
    exact href.not_tagInUse tag name rfl
  · cases hok.symm.trans h

/-- The messages that are printed for the columns of a table are valid. -/
structure TableValid (U : Unicode) (W : Words) (order : MapOrder) (cols : List Column)
    (ignoreTables ignoreColumns : List Text) (style : Text) : Prop where
  tagFree : ∀ tag name, generateSchema U W order cols ignoreTables ignoreColumns style ≠ .error (.tagInUse tag name)
  valid : ∀ s, generateSchema U W order cols ignoreTables ignoreColumns style = .ok s → ∀ m ∈ s.messages,
    ∀ ms, m.print U = some ms → ValidFor U (keptColumns ignoreTables ignoreColumns cols) m ms

theorem exists_print {m : Message} (h : m.name ≠ []) : ∃ ms, m.print U = some ms := by
  obtain ⟨c, cs, hname⟩ := List.exists_cons_of_ne_nil h
  rw [Message.print, Message.genRpcGetByIdReqMessage, Message.genRpcSearchReqMessage, hname]
  exact ⟨_, rfl⟩

theorem name_ne_nil_of_print {m : Message} {ms : List Message} (h : m.print U = some ms) : m.name ≠ [] := by
  intro hname
  rw [Message.print, Message.genRpcGetByIdReqMessage, hname] at h
  cases h

/-- Camel case of words without initialisms, each singular already. -/
def capitalizing : Words where
  snakeToCamel s := (fieldsFunc (fun r => r = '_') s).flatMap fun
    | [] => []
    | c :: cs => c.toUpper :: cs
  singularize s := s

/-- The messages are ranged over in the order that they were made. -/
def asRanged : MapOrder := ⟨fun mm => mm, fun mm => List.Perm.refl mm⟩

def column (table name dataType : String) : Column :=
  ⟨table.toList, [], name.toList, dataType.toList, dataType.toList, []⟩

/-- The message of a table `book` with the column `page`. -/
def bookMessage : Message :=
  ⟨"Book".toList, [], "sqlPb".toList, [⟨"int32".toList, "page".toList, 1, []⟩]⟩

/-- **When the messages of a table are valid.** -/
theorem tableValid_iff {table : Text} {cols : List Column} (htable : ∀ c ∈ cols, c.tableName = table)
    (hsupported : ∀ c ∈ cols, Supported U W c) :
    TableValid U W order cols ignoreTables ignoreColumns style ↔
      (W.snakeToCamel table ≠ [] →
        Distinguished U style (visibleColumns (keptColumns ignoreTables ignoreColumns cols))) := by
  have hkept : ∀ c ∈ keptColumns ignoreTables ignoreColumns cols, messageName W c = W.snakeToCamel table := by
    intro c hc
    rw [messageName, htable c (List.mem_of_mem_filter hc)]
  have hunder : columnsUnder W (W.snakeToCamel table) (keptColumns ignoreTables ignoreColumns cols) =
      keptColumns ignoreTables ignoreColumns cols := by
    rw [columnsUnder, List.filter_eq_self]
    exact fun c hc => decide_eq_true (hkept c hc)
  rcases @generateSchema_cases U W style ignoreTables ignoreColumns order cols with
    ⟨e, -, c, hc, href⟩ | ⟨s, s', mm, hok, hperm, -, hfiles⟩
  · exact absurd (hsupported c (List.mem_of_mem_filter hc)) href.unsupported
  have hholds : ∀ m ∈ s.messages, m.name = W.snakeToCamel table ∧ m.style = style ∧
      Holds U W m (keptColumns ignoreTables ignoreColumns cols) := by
    intro m hm
    have hmem : m ∈ mm := hperm.mem_iff.mp hm
    obtain ⟨c, hc, hname⟩ := (hfiles.names m.name).mp (List.mem_map_of_mem hmem)
    obtain ⟨hm, hstyle⟩ := hfiles.holds m hmem
    rw [← hname, hkept c hc, hunder] at hm
    exact ⟨hname.symm.trans (hkept c hc), hstyle, hm⟩
  constructor
  · intro hv hname
    by_cases hnone : keptColumns ignoreTables ignoreColumns cols = []
    · rw [hnone]
      exact ⟨List.Pairwise.nil, fun _ _ _ hc => absurd hc List.not_mem_nil⟩
    · obtain ⟨c, hc⟩ := List.exists_mem_of_ne_nil _ hnone
      obtain ⟨m, hm, -⟩ := List.mem_map.mp ((hfiles.names _).mpr ⟨c, hc, rfl⟩)
      have hmem : m ∈ s.messages := hperm.mem_iff.mpr hm
      obtain ⟨hmname, hstyle, hmh⟩ := hholds m hmem
      obtain ⟨ms, hprint⟩ := exists_print (U := U) (hmname.symm ▸ hname)
      have hnodup := (validFor_iff hmh hprint).mp (hv.valid s hok m hmem ms hprint)
      rw [hstyle] at hnodup
      exact (nodup_iff_distinguished style _).mp hnodup
  · intro hdist
    refine ⟨generateSchema_tagFree cols, ?_⟩
    intro t ht m hm ms hprint
    cases hok.symm.trans ht
    obtain ⟨hmname, hstyle, hmh⟩ := hholds m hm
    have hname : W.snakeToCamel table ≠ [] := hmname ▸ name_ne_nil_of_print hprint
    apply (validFor_iff hmh hprint).mpr
    rw [hstyle]
    exact (nodup_iff_distinguished style _).mpr (hdist hname)

theorem tableValid_iff_user :
    TableValid Unicode.ascii capitalizing asRanged [column "user" "id" "bigint", column "user" "name" "varchar"] [] []
      fieldStyleToSnake := by
  have htable : ∀ c ∈ [column "user" "id" "bigint", column "user" "name" "varchar"], c.tableName = "user".toList := by
    decide
  refine (tableValid_iff htable ?_).mpr (fun _ => by decide)
  intro c hc
  rcases List.mem_pair.mp hc with rfl | rfl
  · exact fun s => ⟨s, "int64".toList, rfl, by decide⟩
  · exact fun s => ⟨s, "string".toList, rfl, by decide⟩

/-- A column `page`: the List request has two fields of this name. -/
theorem not_tableValid :
    ¬∀ (U : Unicode) (W : Words) (order : MapOrder) (table : Text) (cols : List Column)
        (ignoreTables ignoreColumns : List Text) (style : Text),
      (∀ c ∈ cols, c.tableName = table) → (∀ c ∈ cols, Supported U W c) → (cols.map Column.columnName).Nodup →
        TableValid U W order cols ignoreTables ignoreColumns style := by
  intro h
  have hvalid := h Unicode.ascii capitalizing asRanged "book".toList [column "book" "page" "int"] [] [] "sqlPb".toList
    (by decide) (fun c hc s => ⟨s, "int32".toList, by rw [List.mem_singleton.mp hc]; rfl, by decide⟩) (by decide)
  have hnames := (hvalid.valid _ rfl _ List.mem_cons_self _ rfl).names
  exact absurd (hnames _ (by decide : listRequest Unicode.ascii bookMessage ∈ _)) (by decide)

end Sql2pb
end ServiceKit
