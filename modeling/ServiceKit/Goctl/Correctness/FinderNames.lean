import Mathlib.Data.List.ReduceOption
import Mathlib.Data.List.TakeWhile
import ServiceKit.Goctl.Finders

/-!
# `Correctness.FinderNames` — when the names of the finders are told apart

A finder is named after the columns of its index, in camel case and one right after the other, and so are the variables
of its cache key, where a rune that no identifier may have becomes `_`. Two indexes are told apart by what is left of
their columns then (`Told`), and only where all are does the sort bring them into one order (`findersRight_iff`).
-/

namespace ServiceKit
namespace Goctl
namespace Gen

open Lib Goctl.Parser Sql2pb

variable {U : Unicode} {c : Caser} {cachePrefix : Text} {t : Table}

/-! ## Safe strings -/

theorem safeString_ofText_append (s : GoText) (s' : Text) (hs : s ≠ []) :
    safeString (s ++ ofText s') = safeString s ++ s'.map safeRune := by
  cases s with
  | nil => simp at hs
  | cons p ps =>
      have htail : (ofText s').map safePiece = s'.map safeRune := by
        simp [ofText, safePiece]
      simp only [safeString, List.cons_append, List.map_cons, List.map_append, htail]
      split <;> simp

theorem untitleRune_ne_nil (r : Char) : untitleRune U r ≠ [] := by
  unfold untitleRune
  split
  · simp
  · split <;> simp

/-- What stands first in a name decides what becomes of its case. -/
theorem exists_lead (U : Unicode) {a : Text} (ha : a ≠ []) :
    ∃ w, w ≠ [] ∧ ∀ b, isEmptyOrSpace (a ++ b) = false → safeString (untitle U (a ++ b)) = w ++ b.map safeRune := by
  cases a with
  | nil => simp at ha
  | cons r rs =>
      have hne : untitleRune U r ++ ofText rs ≠ [] := by simp [untitleRune_ne_nil]
      refine ⟨safeString (untitleRune U r ++ ofText rs), ?_, ?_⟩
      · unfold safeString
        split
        · next hnil => exact absurd (List.map_eq_nil_iff.mp hnil) hne
        · split <;> simp
      · intro b hb
        rw [List.cons_append] at hb
        have huntitle : untitle U (r :: (rs ++ b)) = (untitleRune U r ++ ofText rs) ++ ofText b := by
          simp [untitle, hb, ofText]
        rw [List.cons_append, huntitle, safeString_ofText_append _ _ hne]

/-- A name ends as it ended, where that is the rune of an identifier. -/
theorem getLast_safeString (U : Unicode) (s : Text) (d : Char) {e : Char} (hspace : isSpace e = false)
    (hsafe : safeRune e = e) : (safeString (untitle U (s ++ [d, e]))).getLast? = some e := by
  obtain ⟨w, -, hw⟩ := exists_lead U (a := s ++ [d]) (by simp)
  have hblank : isEmptyOrSpace (s ++ [d] ++ [e]) = false := isEmptyOrSpace_of_mem (by simp) hspace
  have hsafeString := hw [e] hblank
  rw [List.append_assoc] at hsafeString
  have hpair : [d] ++ [e] = [d, e] := by simp
  rw [hpair] at hsafeString
  simp [hsafeString, hsafe]

theorem eq_of_safeRune {r e : Char} (he : e ≠ '_') (h : safeRune r = e) : r = e := by
  unfold safeRune at h
  split at h
  · exact h
  · exact absurd h.symm he

/-- An untitled rune does not begin with the `F` of a finder. -/
theorem exists_untitleRune (hlower : ∀ r, (U.toLower r).isUpper = false) (r : Char) :
    ∃ piece rest, untitleRune U r = piece :: rest ∧ safePiece piece ≠ 'F' := by
  have hbyte : String.utf8EncodeChar 'F' = [70] := by decide
  unfold untitleRune
  cases hbytes : String.utf8EncodeChar r with
  | nil =>
      refine ⟨.rune r, [], by simp, ?_⟩
      intro hF
      obtain rfl : r = 'F' := eq_of_safeRune (by decide) hF
      rw [hbyte] at hbytes
      cases hbytes
  | cons b bs =>
      by_cases hcase : !U.isUpper (Char.ofNat b.toNat) && !U.isLower (Char.ofNat b.toNat)
      · refine ⟨.rune r, [], by simp [hcase], ?_⟩
        intro hF
        obtain rfl : r = 'F' := eq_of_safeRune (by decide) hF
        have hb : b = 70 := by
          rw [hbyte] at hbytes
          exact (List.cons.inj hbytes).1.symm
        subst hb
        have hupper := U.isUpper_ascii (Char.ofNat (UInt8.toNat 70)) (by decide)
        rw [hupper] at hcase
        simp at hcase
      · refine ⟨.rune (U.toLower (Char.ofNat b.toNat)), bs.map .stray, by simp [hcase], ?_⟩
        intro hF
        have hupper := hlower (Char.ofNat b.toNat)
        rw [eq_of_safeRune (by decide) hF] at hupper
        simp at hupper

/-- An untitled name does not either. -/
theorem head_safeString (hlower : ∀ r, (U.toLower r).isUpper = false) {s : Text} (hs : isEmptyOrSpace s = false) :
    (safeString (untitle U s)).head? ≠ some 'F' := by
  cases s with
  | nil => simp [isEmptyOrSpace] at hs
  | cons r rs =>
      obtain ⟨piece, rest, hpiece, hF⟩ := exists_untitleRune hlower r
      have huntitle : untitle U (r :: rs) = piece :: (rest ++ ofText rs) := by
        simp [untitle, hs, hpiece]
      rw [huntitle, safeString, List.map_cons]
      dsimp only
      split
      · simp
      · simpa using hF

/-! ## What a variable shows of its columns -/

/-- What can be told of the columns `j`, in camel case, from a variable that has `lead` before them and `tail` after
    them: their runes, as far as an identifier has them; where nothing is before them, their first rune is untitled. -/
def seen (U : Unicode) (lead tail j : Text) : Text :=
  if lead = [] then safeString (untitle U (j ++ tail)) else j.map safeRune

theorem safeString_eq_iff {lead tail j j' : Text} {r : Char} (hr : r ∈ tail) (hspace : isSpace r = false) :
    safeString (untitle U (lead ++ j ++ tail)) = safeString (untitle U (lead ++ j' ++ tail)) ↔
      seen U lead tail j = seen U lead tail j' := by
  by_cases hlead : lead = []
  · simp [seen, hlead]
  · obtain ⟨w, -, hw⟩ := exists_lead U hlead
    have hblank : ∀ j, isEmptyOrSpace (lead ++ (j ++ tail)) = false := fun j =>
      isEmptyOrSpace_of_mem (by simp [hr]) hspace
    rw [List.append_assoc, List.append_assoc, hw _ (hblank j), hw _ (hblank j')]
    simp [seen, hlead]

/-! ## The cache keys -/

theorem camelJoin_append (items items' : List Text) :
    c.camelJoin (items ++ items') = c.camelJoin items ++ c.camelJoin items' := by
  simp [Caser.camelJoin]

theorem toCamel_affix : c.toCamel "prefix".toList = "Prefix".toList := by
  have hsplit : splitBy (fun r => r = '_') true "prefix".toList = ["prefix".toList] := by decide
  have hblank : isEmptyOrSpace "prefix".toList = false := by decide
  rw [Caser.toCamel, hsplit, List.map_singleton, List.flatten_singleton, Caser.toTitle, hblank]
  exact c.title_affix

theorem toCamel_key : c.toCamel "key".toList = "Key".toList := by
  have hsplit : splitBy (fun r => r = '_') true "key".toList = ["key".toList] := by decide
  have hblank : isEmptyOrSpace "key".toList = false := by decide
  rw [Caser.toCamel, hsplit, List.map_singleton, List.flatten_singleton, Caser.toTitle, hblank]
  exact c.title_key

/-- What the variables of a table's cache keys begin with. -/
def varLead (c : Caser) (cachePrefix : Text) (t : Table) : Text := c.camelJoin (cachePrefix :: scope t.db t.name)

def keyLead (c : Caser) (t : Table) : Text := c.camelJoin (scope t.db t.name)

theorem varLeft_eq (fields : List Field) :
    (genCacheKey U c cachePrefix t.db t.name fields).varLeft =
      safeString (untitle U (varLead c cachePrefix t ++ c.camelJoin (fields.map Field.name) ++ "Prefix".toList)) := by
  have htail : c.camelJoin ["prefix".toList] = "Prefix".toList := by
    rw [Caser.camelJoin, List.map_singleton, List.flatten_singleton, toCamel_affix]
  simp only [genCacheKey, varLead]
  rw [camelJoin_append, camelJoin_append, htail]

theorem keyLeft_eq (fields : List Field) :
    (genCacheKey U c cachePrefix t.db t.name fields).keyLeft =
      safeString (untitle U (keyLead c t ++ c.camelJoin (fields.map Field.name) ++ "Key".toList)) := by
  have htail : c.camelJoin ["key".toList] = "Key".toList := by
    rw [Caser.camelJoin, List.map_singleton, List.flatten_singleton, toCamel_key]
  simp only [genCacheKey, keyLead]
  rw [camelJoin_append, camelJoin_append, htail]

/-! ## The keys of a table -/

/-- No index has a nil pointer among its fields. -/
def HasFields (t : Table) : Prop := ∀ e ∈ t.uniqueIndex.entries, ∀ f ∈ e.2, f ≠ none

/-- The columns of the primary key and of each unique index. -/
def columnLists (t : Table) : List (List Text) :=
  [t.primaryKey.name] :: t.uniqueIndex.entries.map fun e => e.2.reduceOption.map Field.name

/-- The key of an index. -/
def indexKey (U : Unicode) (c : Caser) (cachePrefix : Text) (t : Table) (e : Entry Text (List (Option Field))) : Key :=
  genCacheKey U c cachePrefix t.db t.name e.2.reduceOption

theorem mapM_id_eq {fields : List (Option Field)} (h : ∀ f ∈ fields, f ≠ none) :
    fields.mapM id = some fields.reduceOption := by
  induction fields with
  | nil => simp [List.reduceOption_nil]
  | cons f fs ih =>
      have hfs : fs.mapM id = some fs.reduceOption := ih fun g hg => h g (List.mem_cons_of_mem f hg)
      cases f with
      | none => exact absurd (Eq.refl none) (h none List.mem_cons_self)
      | some f => simp [List.mapM_cons, hfs, List.reduceOption_cons_of_some]

theorem genCacheKeys_eq (h : HasFields t) (order : RangeOrder Text) (sort : SortSlice) :
    genCacheKeys U c order sort cachePrefix t =
      some (genCacheKey U c cachePrefix t.db t.name [t.primaryKey.toField],
        sort.slice (fun x y => decide (x.varLeft < y.varLeft))
          ((order.range t.uniqueIndex).map (indexKey U c cachePrefix t))) := by
  have hkeys : ∀ es : List (Entry Text (List (Option Field))), (∀ e ∈ es, ∀ f ∈ e.2, f ≠ none) →
      (es.mapM fun each => (each.2.mapM id).map (genCacheKey U c cachePrefix t.db t.name)) =
        some (es.map (indexKey U c cachePrefix t)) := by
    intro es hes
    induction es with
    | nil => simp
    | cons e es ih =>
        have he := mapM_id_eq (hes e List.mem_cons_self)
        have hrest := ih fun e' he' => hes e' (List.mem_cons_of_mem e he')
        simp [List.mapM_cons, he, hrest, indexKey]
  have hrange := hkeys (order.range t.uniqueIndex) fun e he => h e (order.mem_range.mp he)
  simp only [genCacheKeys, hrange]
  rfl

/-- The unique keys, in the order of the map. -/
def unsorted (U : Unicode) (c : Caser) (cachePrefix : Text) (t : Table) : List Key :=
  t.uniqueIndex.entries.map (indexKey U c cachePrefix t)

theorem unsorted_perm (order : RangeOrder Text) (sort : SortSlice) :
    (sort.slice (fun x y => decide (x.varLeft < y.varLeft))
      ((order.range t.uniqueIndex).map (indexKey U c cachePrefix t))).Perm (unsorted U c cachePrefix t) :=
  (sort.perm _ _).trans ((order.perm t.uniqueIndex).map _)

/-- The keys of a table, the primary one before the others. -/
def allKeys (U : Unicode) (c : Caser) (cachePrefix : Text) (t : Table) : List Key :=
  genCacheKey U c cachePrefix t.db t.name [t.primaryKey.toField] :: unsorted U c cachePrefix t

/-! ## Names -/

/-- Two functions that tell the same elements apart. -/
theorem nodup_map_iff {α β γ : Type} {f : α → β} {g : α → γ} (h : ∀ x y, f x = f y ↔ g x = g y) (l : List α) :
    (l.map f).Nodup ↔ (l.map g).Nodup := by
  rw [List.Nodup, List.Nodup, List.pairwise_map, List.pairwise_map]
  exact List.Pairwise.iff fun x y => not_congr (h x y)

theorem varLefts_nodup_iff : ((allKeys U c cachePrefix t).map Key.varLeft).Nodup ↔
    ((columnLists t).map fun cols => seen U (varLead c cachePrefix t) "Prefix".toList (c.camelJoin cols)).Nodup := by
  have hlefts : (allKeys U c cachePrefix t).map Key.varLeft = (columnLists t).map fun cols =>
      safeString (untitle U (varLead c cachePrefix t ++ c.camelJoin cols ++ "Prefix".toList)) := by
    simp only [allKeys, unsorted, columnLists, indexKey, List.map_cons, List.map_map, Function.comp_def, varLeft_eq]
    simp
  rw [hlefts]
  exact nodup_map_iff (fun cols cols' => safeString_eq_iff (r := 'P') (by decide) (by decide)) _

theorem keyLefts_nodup_iff : ((allKeys U c cachePrefix t).map Key.keyLeft).Nodup ↔
    ((columnLists t).map fun cols => seen U (keyLead c t) "Key".toList (c.camelJoin cols)).Nodup := by
  have hlefts : (allKeys U c cachePrefix t).map Key.keyLeft = (columnLists t).map fun cols =>
      safeString (untitle U (keyLead c t ++ c.camelJoin cols ++ "Key".toList)) := by
    simp only [allKeys, unsorted, columnLists, indexKey, List.map_cons, List.map_map, Function.comp_def, keyLeft_eq]
    simp
  rw [hlefts]
  exact nodup_map_iff (fun cols cols' => safeString_eq_iff (r := 'K') (by decide) (by decide)) _

/-- No variable begins as a finder does. -/
theorem head_variables (hlower : ∀ r, (U.toLower r).isUpper = false) (fields : List Field) :
    (genCacheKey U c cachePrefix t.db t.name fields).varLeft.head? ≠ some 'F' ∧
      (genCacheKey U c cachePrefix t.db t.name fields).keyLeft.head? ≠ some 'F' := by
  rw [varLeft_eq, keyLeft_eq]
  have hvar : isEmptyOrSpace (varLead c cachePrefix t ++ c.camelJoin (fields.map Field.name) ++ "Prefix".toList) = false :=
    isEmptyOrSpace_of_mem (r := 'P') (by simp) (by decide)
  have hkey : isEmptyOrSpace (keyLead c t ++ c.camelJoin (fields.map Field.name) ++ "Key".toList) = false :=
    isEmptyOrSpace_of_mem (r := 'K') (by simp) (by decide)
  exact ⟨head_safeString hlower hvar, head_safeString hlower hkey⟩

/-- A variable of the package is none of a function. -/
theorem varLeft_ne_keyLeft (fields fields' : List Field) :
    (genCacheKey U c cachePrefix t.db t.name fields).varLeft ≠
      (genCacheKey U c cachePrefix t.db t.name fields').keyLeft := by
  intro h
  have hvar : (genCacheKey U c cachePrefix t.db t.name fields).varLeft.getLast? = some 'x' := by
    rw [varLeft_eq]
    have hsplit : varLead c cachePrefix t ++ c.camelJoin (fields.map Field.name) ++ "Prefix".toList =
        (varLead c cachePrefix t ++ c.camelJoin (fields.map Field.name) ++ "Pref".toList) ++ ['i', 'x'] := by simp
    rw [hsplit]
    exact getLast_safeString U _ 'i' (by decide) (by decide)
  have hkey : (genCacheKey U c cachePrefix t.db t.name fields').keyLeft.getLast? = some 'y' := by
    rw [keyLeft_eq]
    have hsplit : keyLead c t ++ c.camelJoin (fields'.map Field.name) ++ "Key".toList =
        (keyLead c t ++ c.camelJoin (fields'.map Field.name) ++ "K".toList) ++ ['e', 'y'] := by simp
    rw [hsplit]
    exact getLast_safeString U _ 'e' (by decide) (by decide)
  rw [h, hkey] at hvar
  simp at hvar

theorem head_method (v : FindOneByField) : v.method.head? = some 'F' := by
  simp [FindOneByField.method]

theorem head_findOneMethods {object name : Text} (h : name ∈ findOneMethods object) : name.head? = some 'F' := by
  have hcases : name = "FindOne".toList ∨ name = "Find".toList ++ object := by
    simpa [findOneMethods] using h
  rcases hcases with rfl | rfl
  · simp
  · simp

/-- A finder by an index is none of the finders that every table has. -/
theorem method_ne_findOneMethods (v : FindOneByField) : v.method ∉ findOneMethods v.upperStartCamelObject := by
  intro hmem
  have hcases : v.method = "FindOne".toList ∨ v.method = "Find".toList ++ v.upperStartCamelObject := by
    simpa [findOneMethods] using hmem
  rcases hcases with h | h
  · have hone : v.upperStartCamelObject ++ ("By".toList ++ v.upperField) = "One".toList := by
      simpa [FindOneByField.method] using h
    have hlength : v.upperStartCamelObject.length + (v.upperField.length + 1 + 1) = 3 := by
      simpa using congrArg List.length hone
    rcases hobject : v.upperStartCamelObject with _ | ⟨a, _ | ⟨b, rest⟩⟩
    · simp [hobject] at hone
    · simp [hobject] at hone
    · rw [hobject] at hlength
      simp only [List.length_cons] at hlength
      omega
  · have hlength := congrArg List.length h
    simp [FindOneByField.method] at hlength

/-! ## Finders -/

/-- The methods of the finders of a table. -/
def methods (U : Unicode) (c : Caser) (g : GenTable) (withCache postgreSql : Bool) : List Text :=
  g.uniqueCacheKey.map fun key => (findOneByField U c g withCache postgreSql key).method

/-- The names and the code that are generated for a table, for every order of its indexes. -/
structure FindersRight (U : Unicode) (c : Caser) (cachePrefix : Text) (t : Table) : Prop where
  names_nodup : ∀ order sort ignoreColumns g withCache postgreSql,
    genTable U c order sort cachePrefix ignoreColumns t = some g →
      (methods U c g withCache postgreSql ++ g.variables).Nodup
  notOwn : ∀ order sort ignoreColumns g withCache postgreSql,
    genTable U c order sort cachePrefix ignoreColumns t = some g →
      ∀ name ∈ methods U c g withCache postgreSql ++ g.variables, name ∉ findOneMethods (c.toCamel t.name)
  sameCode : ∀ (E : Type) (T : Templates E) order order' sort ignoreColumns withCache postgreSql,
    (genTable U c order sort cachePrefix ignoreColumns t).map
        (fun g => genFindOneByField U c T g withCache postgreSql) =
      (genTable U c order' sort cachePrefix ignoreColumns t).map
        fun g => genFindOneByField U c T g withCache postgreSql

/-- The variables of the package, and those of its functions, tell the keys of the table apart. -/
def Told (U : Unicode) (c : Caser) (cachePrefix : Text) (t : Table) : Prop :=
  ((columnLists t).map fun cols => seen U (varLead c cachePrefix t) "Prefix".toList (c.camelJoin cols)).Nodup ∧
    ((columnLists t).map fun cols => seen U (keyLead c t) "Key".toList (c.camelJoin cols)).Nodup

instance (U : Unicode) (c : Caser) (cachePrefix : Text) (t : Table) : Decidable (Told U c cachePrefix t) :=
  inferInstanceAs (Decidable (_ ∧ _))

section Generated

variable {order : RangeOrder Text} {sort : SortSlice} {ignoreColumns : List Text} {g : GenTable}

/-- What the generator hands to its parts. -/
theorem genTable_some (h : HasFields t) (hg : genTable U c order sort cachePrefix ignoreColumns t = some g) :
    g.table = t ∧ g.primaryCacheKey = genCacheKey U c cachePrefix t.db t.name [t.primaryKey.toField] ∧
      g.uniqueCacheKey.Perm (unsorted U c cachePrefix t) := by
  rw [genTable, genCacheKeys_eq h] at hg
  cases hg
  exact ⟨Eq.refl _, Eq.refl _, unsorted_perm order sort⟩

theorem mem_keys (h : HasFields t) (hg : genTable U c order sort cachePrefix ignoreColumns t = some g) {key : Key}
    (hkey : key ∈ g.primaryCacheKey :: g.uniqueCacheKey) :
    ∃ fields, key = genCacheKey U c cachePrefix t.db t.name fields := by
  obtain ⟨-, hprimary, hperm⟩ := genTable_some h hg
  rcases List.mem_cons.mp hkey with rfl | hkey
  · exact ⟨_, hprimary⟩
  · obtain ⟨e, -, rfl⟩ := List.mem_map.mp (hperm.mem_iff.mp hkey)
    exact ⟨_, Eq.refl _⟩

/-- What begins as a finder does is none of the variables. -/
theorem notMem_variables (hlower : ∀ r, (U.toLower r).isUpper = false) (h : HasFields t)
    (hg : genTable U c order sort cachePrefix ignoreColumns t = some g) {name : Text} (hname : name.head? = some 'F') :
    name ∉ g.variables := by
  intro hmem
  rcases List.mem_append.mp hmem with hmem | hmem
  · obtain ⟨key, hkey, rfl⟩ := List.mem_map.mp hmem
    obtain ⟨fields, rfl⟩ := mem_keys h hg hkey
    exact (head_variables hlower fields).1 hname
  · obtain ⟨key, hkey, rfl⟩ := List.mem_map.mp hmem
    obtain ⟨fields, rfl⟩ := mem_keys h hg hkey
    exact (head_variables hlower fields).2 hname

theorem variables_nodup_iff (h : HasFields t) (hg : genTable U c order sort cachePrefix ignoreColumns t = some g) :
    g.variables.Nodup ↔ Told U c cachePrefix t := by
  obtain ⟨-, hprimary, hperm⟩ := genTable_some h hg
  have hall : (g.primaryCacheKey :: g.uniqueCacheKey).Perm (allKeys U c cachePrefix t) := by
    rw [hprimary]
    exact hperm.cons _
  rw [GenTable.variables, List.nodup_append, (hall.map Key.varLeft).nodup_iff, (hall.map Key.keyLeft).nodup_iff,
    varLefts_nodup_iff, keyLefts_nodup_iff, Told]
  constructor
  · rintro ⟨hvars, hlocals, -⟩
    exact ⟨hvars, hlocals⟩
  · rintro ⟨hvars, hlocals⟩
    refine ⟨hvars, hlocals, ?_⟩
    intro x hx y hy
    obtain ⟨key, hkey, rfl⟩ := List.mem_map.mp hx
    obtain ⟨key', hkey', rfl⟩ := List.mem_map.mp hy
    obtain ⟨fields, rfl⟩ := mem_keys h hg hkey
    obtain ⟨fields', rfl⟩ := mem_keys h hg hkey'
    exact varLeft_ne_keyLeft fields fields'

/-- Indexes that a variable tells apart have different methods. -/
theorem methods_nodup_of_told (h : HasFields t) (htold : Told U c cachePrefix t) (withCache postgreSql : Bool)
    (hg : genTable U c order sort cachePrefix ignoreColumns t = some g) : (methods U c g withCache postgreSql).Nodup := by
  obtain ⟨-, -, hperm⟩ := genTable_some h hg
  rw [methods, (hperm.map _).nodup_iff]
  have hvars := (List.nodup_cons.mp htold.1).2
  rw [List.map_map] at hvars
  rw [unsorted, List.map_map, List.Nodup, List.pairwise_map]
  refine (List.pairwise_map.mp hvars).imp ?_
  intro e e' hne heq
  apply hne
  have hjoin : c.camelJoin (e.2.reduceOption.map Field.name) = c.camelJoin (e'.2.reduceOption.map Field.name) := by
    simpa [findOneByField, FindOneByField.method, indexKey, genCacheKey, convertJoin] using heq
  simp [hjoin]

/-- Where the variables are told apart, the sort does not show the order of the map. -/
theorem genTable_order (h : HasFields t) (htold : Told U c cachePrefix t) (order order' : RangeOrder Text) :
    genTable U c order sort cachePrefix ignoreColumns t = genTable U c order' sort cachePrefix ignoreColumns t := by
  have hvars := (List.nodup_cons.mp (varLefts_nodup_iff.mpr htold.1)).2
  have hnodup : ∀ order : RangeOrder Text,
      (((order.range t.uniqueIndex).map (indexKey U c cachePrefix t)).map Key.varLeft).Nodup := fun order =>
    ((((order.perm t.uniqueIndex).map _).map Key.varLeft).nodup_iff).mpr hvars
  have hperm : ((order.range t.uniqueIndex).map (indexKey U c cachePrefix t)).Perm
      ((order'.range t.uniqueIndex).map (indexKey U c cachePrefix t)) :=
    ((order.perm t.uniqueIndex).trans (order'.perm t.uniqueIndex).symm).map _
  rw [genTable, genTable, genCacheKeys_eq h, genCacheKeys_eq h]
  have hsort : sort.slice (fun x y : Key => decide (x.varLeft < y.varLeft))
        ((order.range t.uniqueIndex).map (indexKey U c cachePrefix t)) =
      sort.slice (fun x y => decide (x.varLeft < y.varLeft))
        ((order'.range t.uniqueIndex).map (indexKey U c cachePrefix t)) := by
    apply sort.slice_eq_of_perm ?_ ?_ ?_ hperm
    · intro x
      simp
    · intro x y z hxy hyz
      simp only [decide_eq_true_eq] at hxy hyz ⊢
      exact List.lt_trans hxy hyz
    · intro x hx y hy hxy hyx
      have hvar : x.varLeft = y.varLeft :=
        List.le_antisymm (List.not_lt.mp (of_decide_eq_false hyx)) (List.not_lt.mp (of_decide_eq_false hxy))
      exact List.inj_on_of_nodup_map (hnodup order) hx hy hvar
  rw [hsort]

end Generated

/-- **The finders of a table are right** exactly when the variables of their cache keys are told apart. -/
theorem findersRight_iff (U : Unicode) (hlower : ∀ r, (U.toLower r).isUpper = false) (c : Caser) (cachePrefix : Text)
    (t : Table) (h : HasFields t) : FindersRight U c cachePrefix t ↔ Told U c cachePrefix t := by
  constructor
  · intro hright
    obtain ⟨g, hg⟩ : ∃ g, genTable U c .listed .insertion cachePrefix [] t = some g := by
      rw [genTable, genCacheKeys_eq h]
      exact ⟨_, Eq.refl _⟩
    have hnames := hright.names_nodup _ _ _ g false false hg
    exact (variables_nodup_iff h hg).mp (List.nodup_append.mp hnames).2.1
  · intro htold
    constructor
    · intro order sort ignoreColumns g withCache postgreSql hg
      rw [List.nodup_append]
      refine ⟨methods_nodup_of_told h htold withCache postgreSql hg, (variables_nodup_iff h hg).mpr htold, ?_⟩
      intro name hname v hv heq
      obtain ⟨key, -, rfl⟩ := List.mem_map.mp hname
      exact notMem_variables hlower h hg (head_method _) (heq ▸ hv)
    · intro order sort ignoreColumns g withCache postgreSql hg name hname hown
      rcases List.mem_append.mp hname with hname | hname
      · obtain ⟨htable, -, -⟩ := genTable_some h hg
        obtain ⟨key, -, rfl⟩ := List.mem_map.mp hname
        have hobject : (findOneByField U c g withCache postgreSql key).upperStartCamelObject = c.toCamel t.name := by
          rw [← htable]
          simp [findOneByField]
        rw [← hobject] at hown
        exact method_ne_findOneMethods _ hown
      · exact notMem_variables hlower h hg (head_findOneMethods hown) hname
    · intro E T order order' sort ignoreColumns withCache postgreSql
      rw [genTable_order h htold order order']

/-! ## Tables of users -/

/-- Title case, of a word without marks. -/
def wordCaser : Caser where
  title
    | [] => []
    | r :: rs => r.toUpper :: rs
  title_affix := by decide
  title_key := by decide

/-- A table with these unique indexes. -/
def usersWith (first second : List String) : Table where
  name := "user".toList
  db := []
  primaryKey := { name := "id".toList, dataType := "int64".toList }
  uniqueIndex :=
    ((∅ : GoMap Text (List (Option Field))).insert "first".toList
        (first.map fun n => some { name := n.toList, dataType := "string".toList })).insert "second".toList
      (second.map fun n => some { name := n.toList, dataType := "string".toList })
  fields := []
  containsPQ := false

theorem hasFields_usersWith (first second : List String) : HasFields (usersWith first second) := by
  intro e he f hf
  have hcases : e = ⟨"second".toList, second.map fun n => some { name := n.toList, dataType := "string".toList }⟩ ∨
      e = ⟨"first".toList, first.map fun n => some { name := n.toList, dataType := "string".toList }⟩ := by
    simpa [usersWith, mem_entries_insert] using he
  rcases hcases with rfl | rfl
  · obtain ⟨n, -, rfl⟩ := List.mem_map.mp hf
    simp
  · obtain ⟨n, -, rfl⟩ := List.mem_map.mp hf
    simp

theorem isUpper_toLower (r : Char) : (Unicode.ascii.toLower r).isUpper = false := by
  show r.toLower.isUpper = false
  unfold Char.isUpper Char.toLower
  split
  · grind [UInt32.toNat_add, Char.toNat_val]
  · grind [UInt32.toNat_add, Char.toNat_val]

theorem findersRight_users :
    FindersRight Unicode.ascii wordCaser "cache".toList (usersWith ["name"] ["email", "phone"]) :=
  (findersRight_iff Unicode.ascii isUpper_toLower wordCaser "cache".toList (usersWith ["name"] ["email", "phone"])
    (hasFields_usersWith ["name"] ["email", "phone"])).mpr (by decide +kernel)

/-- The unique indexes `(a_b)` and `(a, b)` have one finder. -/
theorem not_findersRight :
    ¬∀ (c : Caser) (cachePrefix : Text) (t : Table), HasFields t →
      (t.uniqueIndex.entries.map fun e => e.2.reduceOption.map Field.name).Nodup →
        FindersRight Unicode.ascii c cachePrefix t := by
  intro h
  have hright := h wordCaser "cache".toList (usersWith ["a_b"] ["a", "b"]) (hasFields_usersWith _ _) (by decide +kernel)
  have hnames := hright.names_nodup .listed .insertion [] _ true false (Eq.refl _)
  exact absurd hnames (by decide +kernel)

end Gen
end Goctl
end ServiceKit
