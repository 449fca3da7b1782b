import Mathlib.Data.List.Dedup
import Mathlib.Data.List.Pairwise
import Mathlib.Data.List.Perm.Basic
import ServiceKit.Sql2pb.Correctness.Messages

/-!
# `Sql2pb.Correctness.Tables` — when the names of a schema are distinct

A table is printed as one message under its camel case name and ten requests and responses with a word before and
after it; an enumeration is named after its table and its column. The messages are those of the tables, and all these
names are distinct, when the camel case names of the tables are, none of them is the name of a request, and the enums
are apart from each other and from both (`tablesToMessages_iff`).
-/

namespace ServiceKit
namespace Sql2pb

open Lib

variable {U : Unicode} {W : Words} {order : MapOrder} {style : Text} {ignoreTables ignoreColumns : List Text}
variable {cols : List Column} {s : Schema}

/-! ## Names of requests and responses -/

/-- What stands before and after the name of a table in the names of its requests and responses. -/
def requestForms : List (Text × Text) :=
  [("Insert".toList, "Req".toList), ("Insert".toList, "Resp".toList), ("Update".toList, "Req".toList),
    ("Update".toList, "Resp".toList), ("Del".toList, "Req".toList), ("Del".toList, "Resp".toList),
    ("Find".toList, "ByIdReq".toList), ("Find".toList, "ByIdResp".toList), ("List".toList, "Req".toList),
    ("List".toList, "Resp".toList)]

def requestNames (n : Text) : List Text := requestForms.map (fun f => f.1 ++ n ++ f.2)

/-- The names of the messages of a table. -/
def messageNames (n : Text) : List Text := n :: requestNames n

theorem print_names {m : Message} {ms : List Message} (h : m.print U = some ms) :
    ms.map Message.name = messageNames m.name := by
  rw [Message.print, Message.genRpcGetByIdReqMessage, Message.genRpcSearchReqMessage] at h
  cases hname : lowerFirst U m.name with
  | none =>
      rw [hname] at h
      cases h
  | some lowered =>
      rw [hname] at h
      cases h
      rfl

/-- A name has at most one form, for at most one table. -/
theorem form_inj {f g : Text × Text} (hf : f ∈ requestForms) (hg : g ∈ requestForms) {n k : Text}
    (h : f.1 ++ n ++ f.2 = g.1 ++ k ++ g.2) : f = g ∧ n = k := by
  have hstart : ∀ f ∈ requestForms, ∀ g ∈ requestForms, f.1.head? = g.1.head? → f.1 = g.1 := by decide
  have hend : ∀ f ∈ requestForms, ∀ g ∈ requestForms, f.1 = g.1 → f.2.getLast? = g.2.getLast? → f = g := by decide
  have hne : ∀ f ∈ requestForms, f.1.head?.isSome ∧ f.2.getLast?.isSome := by decide
  obtain ⟨a, ha⟩ := Option.isSome_iff_exists.mp (hne f hf).1
  obtain ⟨b, hb⟩ := Option.isSome_iff_exists.mp (hne g hg).1
  obtain ⟨c, hc⟩ := Option.isSome_iff_exists.mp (hne f hf).2
  obtain ⟨d, hd⟩ := Option.isSome_iff_exists.mp (hne g hg).2
  have hhead := congrArg List.head? h
  have hlast := congrArg List.getLast? h
  simp only [List.append_assoc, List.head?_append, ha, hb, Option.some_or] at hhead
  simp only [List.getLast?_append, hc, hd, Option.some_or] at hlast
  have hfirst : f.1 = g.1 := hstart f hf g hg (by rw [ha, hb, hhead])
  have hform : f = g := hend f hf g hg hfirst (by rw [hc, hd, hlast])
  subst hform
  exact ⟨rfl, List.append_cancel_left (List.append_cancel_right h)⟩

theorem requestNames_nodup (n : Text) : (requestNames n).Nodup := by
  have hforms : requestForms.Nodup := by decide
  exact hforms.map_on (fun f hf g hg h => (form_inj hf hg h).1)

theorem requestNames_apart {n k r : Text} (hn : r ∈ requestNames n) (hk : r ∈ requestNames k) : n = k := by
  obtain ⟨f, hf, rfl⟩ := List.mem_map.mp hn
  obtain ⟨g, hg, heq⟩ := List.mem_map.mp hk
  exact (form_inj hf hg heq.symm).2

theorem not_mem_requestNames_self (n : Text) : n ∉ requestNames n := by
  intro h
  obtain ⟨f, hf, heq⟩ := List.mem_map.mp h
  have hne : ∀ f ∈ requestForms, 0 < f.1.length := by decide
  have hlen := congrArg List.length heq
  rw [List.length_append, List.length_append] at hlen
  have hpos := hne f hf
  omega

/-- **The names of the messages of tables**, given that the tables have distinct names. -/
theorem messageNames_nodup_iff {ns : List Text} (hns : ns.Nodup) :
    (ns.flatMap messageNames).Nodup ↔ ∀ n ∈ ns, ∀ k ∈ ns, n ∉ requestNames k := by
  have hself : ∀ n ∈ ns, (messageNames n).Nodup := fun n _ =>
    List.nodup_cons.mpr ⟨not_mem_requestNames_self n, requestNames_nodup n⟩
  rw [List.nodup_flatMap]
  constructor
  · rintro ⟨-, hpair⟩ n hn k hk hmem
    by_cases hnk : n = k
    · rw [hnk] at hmem
      exact not_mem_requestNames_self k hmem
    · have hsymm : Std.Symm (Function.onFun List.Disjoint messageNames) := ⟨fun _ _ hxy _ hn hk => hxy hk hn⟩
      exact hpair.forall hn hk hnk List.mem_cons_self (List.mem_cons_of_mem k hmem)
  · intro hreq
    refine ⟨hself, hns.pairwise_of_forall_ne ?_⟩
    intro n hn k hk hnk r hrn hrk
    rcases List.mem_cons.mp hrn with rfl | hrn
    · rcases List.mem_cons.mp hrk with rfl | hrk
      · exact hnk rfl
      · exact hreq r hn k hk hrk
    · rcases List.mem_cons.mp hrk with rfl | hrk
      · exact hreq r hk n hn hrn
      · exact hnk (requestNames_apart hrn hrk)

/-! ## The schema -/

/-- The tables that have a kept column. -/
def tablesOf (cols : List Column) : List Text := (cols.map Column.tableName).dedup

def columnsOf (table : Text) (cols : List Column) : List Column := cols.filter (fun c => c.tableName = table)

/-- A message for each table, holding its columns in order; and all names of the schema are distinct. -/
structure TablesToMessages (U : Unicode) (W : Words) (kept : List Column) (s : Schema) : Prop where
  messages : ∃ ms, ms.Perm s.messages ∧
    List.Forall₂ (fun m t => m.name = W.snakeToCamel t ∧ Holds U W m (columnsOf t kept)) ms (tablesOf kept)
  names : ∀ ps, s.print U = some ps → (ps.map Message.name ++ s.enums.map Enum.name).Nodup

/-- The names of the tables and of their enumerations are apart. -/
structure Separated (U : Unicode) (W : Words) (kept : List Column) : Prop where
  requests : ∀ t ∈ tablesOf kept, ∀ u ∈ tablesOf kept, W.snakeToCamel t ∉ requestNames (W.snakeToCamel u)
  enums : (kept.filter (isEnumColumn U)).Pairwise (fun c d => enumName W c ≠ enumName W d)
  enumTables : ∀ c ∈ kept, isEnumColumn U c = true → ∀ t ∈ tablesOf kept, enumName W c ∉ messageNames (W.snakeToCamel t)

theorem print_messages_names {ms : List Message} {pss : List (List Message)} (h : ms.mapM (Message.print U) = some pss) :
    pss.flatten.map Message.name = (ms.map Message.name).flatMap messageNames := by
  induction ms generalizing pss with
  | nil =>
      cases h
      rfl
  | cons m ms ih =>
      rw [List.mapM_cons] at h
      obtain ⟨ps, hps, h⟩ := Option.bind_eq_some_iff.mp h
      obtain ⟨rest, hrest, h⟩ := Option.bind_eq_some_iff.mp h
      cases h
      rw [List.flatten_cons, List.map_append, print_names hps, ih hrest]
      rfl

theorem print_schema_names {ps : List Message} (h : s.print U = some ps) :
    ps.map Message.name = (s.messages.map Message.name).flatMap messageNames := by
  rw [Schema.print] at h
  obtain ⟨pss, hpss, rfl⟩ := Option.map_eq_some_iff.mp h
  exact print_messages_names hpss

theorem exists_print_messages {ms : List Message} (h : ∀ m ∈ ms, m.name ≠ []) :
    ∃ pss, ms.mapM (Message.print U) = some pss := by
  induction ms with
  | nil => exact ⟨[], rfl⟩
  | cons m ms ih =>
      obtain ⟨ps, hps⟩ := exists_print (U := U) (h m List.mem_cons_self)
      obtain ⟨pss, hpss⟩ := ih (fun k hk => h k (List.mem_cons_of_mem m hk))
      refine ⟨ps :: pss, ?_⟩
      rw [List.mapM_cons, hps, hpss]
      rfl

theorem name_ne_nil_of_print_messages {ms : List Message} {pss : List (List Message)}
    (h : ms.mapM (Message.print U) = some pss) : ∀ m ∈ ms, m.name ≠ [] := by
  induction ms generalizing pss with
  | nil => exact fun m hm => absurd hm nofun
  | cons k ms ih =>
      rw [List.mapM_cons] at h
      obtain ⟨ps, hps, h⟩ := Option.bind_eq_some_iff.mp h
      obtain ⟨rest, hrest, h⟩ := Option.bind_eq_some_iff.mp h
      intro m hm
      rcases List.mem_cons.mp hm with rfl | hm
      · exact name_ne_nil_of_print hps
      · exact ih hrest m hm

/-- The schema is printed when no message has an empty name. -/
theorem exists_print_schema_iff : (∃ ps, s.print U = some ps) ↔ ∀ m ∈ s.messages, m.name ≠ [] := by
  constructor
  · rintro ⟨ps, h⟩
    rw [Schema.print] at h
    obtain ⟨pss, hpss, -⟩ := Option.map_eq_some_iff.mp h
    exact name_ne_nil_of_print_messages hpss
  · intro h
    obtain ⟨pss, hpss⟩ := exists_print_messages (U := U) h
    exact ⟨pss.flatten, by rw [Schema.print, hpss]; rfl⟩

/-! ## Messages of tables -/

theorem mem_tablesOf {t : Text} : t ∈ tablesOf cols ↔ ∃ c ∈ cols, c.tableName = t := by
  rw [tablesOf, List.mem_dedup, List.mem_map]

theorem enumNames_flatMap (cols : List Column) :
    cols.flatMap (enumNames U W) = (cols.filter (isEnumColumn U)).map (enumName W) := by
  induction cols with
  | nil => rfl
  | cons c cols ih =>
      rw [List.flatMap_cons, ih, List.filter_cons, enumNames]
      split
      · rfl
      · rfl

/-- With distinct camel case names, a name has the columns of one table. -/
theorem columnsUnder_eq_columnsOf
    (h : (tablesOf cols).Pairwise (fun t u => W.snakeToCamel t ≠ W.snakeToCamel u)) {t : Text} (ht : t ∈ tablesOf cols) :
    columnsUnder W (W.snakeToCamel t) cols = columnsOf t cols := by
  have hsymm : Std.Symm (fun t u => W.snakeToCamel t ≠ W.snakeToCamel u) := ⟨fun _ _ => Ne.symm⟩
  apply List.filter_congr
  intro c hc
  have hmem : c.tableName ∈ tablesOf cols := mem_tablesOf.mpr ⟨c, hc, rfl⟩
  by_cases heq : c.tableName = t
  · rw [messageName, heq, decide_eq_true rfl, decide_eq_true rfl]
  · rw [messageName, decide_eq_false heq, decide_eq_false (h.forall hmem ht heq)]

theorem messages_iff {mm : MessageMap} {s' : Schema} (hperm : s.messages.Perm mm)
    (hfiles : Files U W style cols s' mm) :
    (∃ ms, ms.Perm s.messages ∧
        List.Forall₂ (fun m t => m.name = W.snakeToCamel t ∧ Holds U W m (columnsOf t cols)) ms (tablesOf cols)) ↔
      (tablesOf cols).Pairwise (fun t u => W.snakeToCamel t ≠ W.snakeToCamel u) := by
  constructor
  · rintro ⟨ms, hms, hall⟩
    have hnames : ms.map Message.name = (tablesOf cols).map W.snakeToCamel := by
      rw [← List.forall₂_eq_eq_eq, List.forall₂_map_left_iff, List.forall₂_map_right_iff]
      exact hall.imp (fun m t h => h.1)
    have hnodup : (ms.map Message.name).Nodup := ((hms.trans hperm).map Message.name).nodup_iff.mpr hfiles.nodup
    rw [hnames, List.Nodup, List.pairwise_map] at hnodup
    exact hnodup
  · intro htables
    have hnodup : ((tablesOf cols).map W.snakeToCamel).Nodup := List.pairwise_map.mpr htables
    have hnames : ((tablesOf cols).map W.snakeToCamel).Perm (mm.map Message.name) := by
      rw [List.perm_ext_iff_of_nodup hnodup hfiles.nodup]
      intro n
      rw [hfiles.names, List.mem_map]
      constructor
      · rintro ⟨t, ht, rfl⟩
        obtain ⟨c, hc, rfl⟩ := mem_tablesOf.mp ht
        exact ⟨c, hc, rfl⟩
      · rintro ⟨c, hc, rfl⟩
        exact ⟨c.tableName, mem_tablesOf.mpr ⟨c, hc, rfl⟩, rfl⟩
    have hcomp := congrFun (congrFun (List.eq_map_comp_perm Message.name) ((tablesOf cols).map W.snakeToCamel)) mm
    obtain ⟨ms, heq, hms⟩ := (iff_of_eq hcomp).mpr hnames
    refine ⟨ms, hms.trans hperm.symm, ?_⟩
    have hall : List.Forall₂ (fun m t => m.name = W.snakeToCamel t) ms (tablesOf cols) := by
      have hmaps : List.Forall₂ Eq (ms.map Message.name) ((tablesOf cols).map W.snakeToCamel) := by
        rw [List.forall₂_eq_eq_eq]
        exact heq.symm
      rw [List.forall₂_map_left_iff, List.forall₂_map_right_iff] at hmaps
      exact hmaps
    rw [List.forall₂_iff_zip] at hall ⊢
    refine ⟨hall.1, ?_⟩
    intro m t hzip
    obtain ⟨hm, ht⟩ := List.of_mem_zip hzip
    have hname := hall.2 hzip
    have hholds := (hfiles.holds m (hms.mem_iff.mp hm)).1
    rw [hname, columnsUnder_eq_columnsOf htables ht] at hholds
    exact ⟨hname, hholds⟩

/-! ## All names -/

/-- The names of messages and enums, over the names `ns` of the messages of the tables. -/
theorem nodup_iff_separated {ns es : List Text} (hns : ns.Nodup)
    (hmem : ∀ n, n ∈ ns ↔ ∃ t ∈ tablesOf cols, W.snakeToCamel t = n)
    (hes : es.Perm ((cols.filter (isEnumColumn U)).map (enumName W))) :
    (ns.flatMap messageNames ++ es).Nodup ↔ Separated U W cols := by
  have henum : ∀ e, e ∈ es ↔ ∃ c ∈ cols, isEnumColumn U c = true ∧ enumName W c = e := by
    intro e
    rw [hes.mem_iff, List.mem_map]
    simp only [List.mem_filter, and_assoc]
  have henums : es.Nodup ↔ (cols.filter (isEnumColumn U)).Pairwise (fun c d => enumName W c ≠ enumName W d) := by
    rw [hes.nodup_iff, List.Nodup, List.pairwise_map]
  rw [List.nodup_append, messageNames_nodup_iff hns, henums]
  constructor
  · rintro ⟨hreq, hpair, hapart⟩
    refine ⟨?_, hpair, ?_⟩
    · intro t ht u hu
      exact hreq _ ((hmem _).mpr ⟨t, ht, rfl⟩) _ ((hmem _).mpr ⟨u, hu, rfl⟩)
    · intro c hc hce t ht hin
      have hname : enumName W c ∈ ns.flatMap messageNames :=
        List.mem_flatMap.mpr ⟨_, (hmem _).mpr ⟨t, ht, rfl⟩, hin⟩
      exact hapart _ hname _ ((henum _).mpr ⟨c, hc, hce, rfl⟩) rfl
  · rintro ⟨hreq, hpair, hapart⟩
    refine ⟨?_, hpair, ?_⟩
    · intro n hn k hk
      obtain ⟨t, ht, rfl⟩ := (hmem n).mp hn
      obtain ⟨u, hu, rfl⟩ := (hmem k).mp hk
      exact hreq t ht u hu
    · intro n hn e he heq
      obtain ⟨k, hk, hin⟩ := List.mem_flatMap.mp hn
      obtain ⟨t, ht, rfl⟩ := (hmem k).mp hk
      obtain ⟨c, hc, hce, rfl⟩ := (henum e).mp he
      rw [heq] at hin
      exact hapart c hc hce t ht hin

/-- A table `user` with an enumeration, and a table `user_type`. -/
def userColumns (name : String) : List Column :=
  [⟨"user".toList, [], name.toList, "enum".toList, "enum('a','b')".toList, []⟩, column "user_type" "id" "bigint"]

/-- The schema of a run that succeeds. -/
def schemaOf (cols : List Column) : Schema :=
  match generateSchema Unicode.ascii capitalizing asRanged cols [] [] fieldStyleToSnake with
  | .ok s => s
  | .error _ => ⟨[], [], []⟩

/-- **When tables become messages under distinct names.** -/
theorem tablesToMessages_iff (h : generateSchema U W order cols ignoreTables ignoreColumns style = .ok s) :
    TablesToMessages U W (keptColumns ignoreTables ignoreColumns cols) s ↔
      (tablesOf (keptColumns ignoreTables ignoreColumns cols)).Pairwise
          (fun t u => W.snakeToCamel t ≠ W.snakeToCamel u) ∧
        ((∀ t ∈ tablesOf (keptColumns ignoreTables ignoreColumns cols), W.snakeToCamel t ≠ []) →
          Separated U W (keptColumns ignoreTables ignoreColumns cols)) := by
  rcases @generateSchema_cases U W style ignoreTables ignoreColumns order cols with
    ⟨e, herr, -⟩ | ⟨t, s', mm, hok, hperm, henums, hfiles⟩
  · cases herr.symm.trans h
  cases hok.symm.trans h
  generalize keptColumns ignoreTables ignoreColumns cols = kept at hfiles ⊢
  have hns : (s.messages.map Message.name).Nodup := (hperm.map Message.name).nodup_iff.mpr hfiles.nodup
  have hmem : ∀ n, n ∈ s.messages.map Message.name ↔ ∃ t ∈ tablesOf kept, W.snakeToCamel t = n := by
    intro n
    rw [(hperm.map Message.name).mem_iff, hfiles.names]
    constructor
    · rintro ⟨c, hc, rfl⟩
      exact ⟨c.tableName, mem_tablesOf.mpr ⟨c, hc, rfl⟩, rfl⟩
    · rintro ⟨t, ht, rfl⟩
      obtain ⟨c, hc, rfl⟩ := mem_tablesOf.mp ht
      exact ⟨c, hc, rfl⟩
  have hes : (s.enums.map Enum.name).Perm ((kept.filter (isEnumColumn U)).map (enumName W)) := by
    rw [← enumNames_flatMap, ← hfiles.enums]
    exact henums.map Enum.name
  have hnames := nodup_iff_separated hns hmem hes
  have hprint : (∃ ps, s.print U = some ps) ↔ ∀ t ∈ tablesOf kept, W.snakeToCamel t ≠ [] := by
    rw [exists_print_schema_iff]
    constructor
    · intro hne t ht hnil
      obtain ⟨m, hm, hname⟩ := List.mem_map.mp ((hmem _).mpr ⟨t, ht, rfl⟩)
      exact hne m hm (hname.trans hnil)
    · intro hne m hm hnil
      obtain ⟨t, ht, hname⟩ := (hmem _).mp (List.mem_map_of_mem hm)
      exact hne t ht (hname.trans hnil)
  constructor
  · rintro ⟨hmessages, hdistinct⟩
    refine ⟨(messages_iff hperm hfiles).mp hmessages, fun hne => ?_⟩
    obtain ⟨ps, hps⟩ := hprint.mpr hne
    have hnodup := hdistinct ps hps
    rw [print_schema_names hps] at hnodup
    exact hnames.mp hnodup
  · rintro ⟨htables, hsep⟩
    refine ⟨(messages_iff hperm hfiles).mpr htables, fun ps hps => ?_⟩
    rw [print_schema_names hps]
    exact hnames.mpr (hsep (hprint.mp ⟨ps, hps⟩))

theorem tablesToMessages_iff_user :
    ∃ s, generateSchema Unicode.ascii capitalizing asRanged (userColumns "role") [] [] fieldStyleToSnake = .ok s ∧
      TablesToMessages Unicode.ascii capitalizing (userColumns "role") s := by
  have hrun : generateSchema Unicode.ascii capitalizing asRanged (userColumns "role") [] [] fieldStyleToSnake =
      .ok (schemaOf (userColumns "role")) := Eq.refl _
  have hsep : Separated Unicode.ascii capitalizing (userColumns "role") := ⟨by decide, by decide, by decide⟩
  exact ⟨_, hrun, (tablesToMessages_iff hrun).mpr ⟨by decide, fun _ => hsep⟩⟩

/-- The enum of `user.type` and the message of `user_type` are both `UserType`. -/
theorem not_tablesToMessages :
    ¬∀ (U : Unicode) (W : Words) (order : MapOrder) (cols : List Column) (ignoreTables ignoreColumns : List Text)
        (style : Text) (s : Schema),
      generateSchema U W order cols ignoreTables ignoreColumns style = .ok s →
        TablesToMessages U W (keptColumns ignoreTables ignoreColumns cols) s := by
  intro h
  have hnames := (h Unicode.ascii capitalizing asRanged (userColumns "type") [] [] fieldStyleToSnake
    (schemaOf (userColumns "type")) (Eq.refl _)).names
  exact absurd (hnames _ (Eq.refl _)) (by decide)

end Sql2pb
end ServiceKit
