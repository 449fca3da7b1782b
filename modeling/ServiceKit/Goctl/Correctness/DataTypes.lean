import ServiceKit.Goctl.TableDefinition

/-!
# `DataTypes` — one column, two Go types

The DDL parser's token of a type and the name that the database reports for it lead to the same Go type, but for the
types of `Renamed`: `SMALLINT` is an `int32` by its name and an `int64` by its token, and `BOOL`, which the database
reports as `tinyint`, is a `bool` by its token. A Go type shows whether the column is nullable, but for `BIT`
(`convert_eq_iff`).
-/

namespace ServiceKit
namespace Goctl

open Lib Ddl Converter

/-- The types that are found under another Go type by their name. -/
def Renamed (t : DataType) : Prop := t = .smallInt ∨ t = .int2 ∨ t = .bool ∨ t = .boolean

instance (t : DataType) : Decidable (Renamed t) := by
  unfold Renamed
  infer_instance

/-- The Go type by the name, for a column whose token has the type `tp`. -/
def byName (t : DataType) (tp : Text) : Text :=
  if t = .smallInt ∨ t = .int2 then "int32".toList else if t = .bool ∨ t = .boolean then "int64".toList else tp

theorem byName_of_not_renamed {t : DataType} (h : ¬Renamed t) (tp : Text) : byName t tp = tp := by
  unfold Renamed at h
  unfold byName
  rw [if_neg (fun hs => h (hs.imp_right Or.inl)), if_neg (fun hb => h (Or.inr (Or.inr hb)))]

/-! ## The two tables -/

/-- The names that are reported for a type that the DDL parser knows, with their Go types. -/
def reportedTypes : List (String × String) :=
  [("bit", "byte"), ("tinyint", "int64"), ("smallint", "int32"), ("mediumint", "int64"), ("int", "int64"),
    ("bigint", "int64"), ("float", "float64"), ("double", "float64"), ("decimal", "float64"), ("date", "time.Time"),
    ("datetime", "time.Time"), ("timestamp", "time.Time"), ("time", "string"), ("year", "int64"), ("char", "string"),
    ("varchar", "string"), ("binary", "string"), ("varbinary", "string"), ("tinytext", "string"),
    ("text", "string"), ("mediumtext", "string"), ("longtext", "string"), ("tinyblob", "string"), ("blob", "string"),
    ("mediumblob", "string"), ("longblob", "string"), ("linestring", "string"), ("multilinestring", "string"),
    ("enum", "string"), ("set", "string"), ("json", "string")]

/-- Small letters and digits of ASCII, which `strings.ToLower` leaves as they are. -/
def isLowerAscii (s : Text) : Bool := s.all fun c => c.val < 128 && c.toLower = c

/-- The converter has each of them, and finds it as it is written. -/
theorem reportedTypes_lookup : ∀ e ∈ reportedTypes,
    commonMysqlDataTypeMapString.lookup e.1.toList = some e.2.toList ∧ isLowerAscii e.1.toList = true ∧
      "_".toList.isPrefixOf e.1.toList = false := by
  decide

theorem textTypes_mem : ∀ n ∈ textTypes, ∃ e ∈ reportedTypes, e.1 = n ∧ e.2.toList = "string".toList := by
  decide

theorem reported_mem {t : DataType} {tp : Text} (h : commonMysqlDataTypeMapInt t = some tp) :
    ∀ n ∈ reported t, ∃ e ∈ reportedTypes, e.1 = n ∧ e.2.toList = byName t tp := by
  cases t with
  | other code => cases h
  | varChar | nVarChar | longVarChar | varBinary | tinyText | text | mediumText | longText | blob | longBlob | mediumBlob
  | tinyBlob =>
      obtain rfl := Option.some.inj h
      exact textTypes_mem
  | _ =>
      obtain rfl := Option.some.inj h
      decide

theorem map_toLower_of_ascii (U : Unicode) {s : Text} (h : isLowerAscii s = true) : s.map U.toLower = s := by
  have hsame : ∀ c ∈ s, U.toLower c = c := by
    intro c hc
    have hboth := List.all_eq_true.mp h c hc
    rw [Bool.and_eq_true, decide_eq_true_iff, decide_eq_true_iff] at hboth
    rw [U.toLower_ascii c hboth.1, hboth.2]
  rw [List.map_congr_left hsame, List.map_id']

/-! ## The converter -/

theorem convertDataType_plain (U : Unicode) {t : DataType} {tp : Text} (h : commonMysqlDataTypeMapInt t = some tp)
    (isDefaultNull unsigned strict : Bool) :
    convertDataType U Env.plain t isDefaultNull unsigned strict =
      .ok (mayConvertNullType tp isDefaultNull unsigned strict, []) := by
  simp [convertDataType, Env.plain, h]

theorem convertStringDataType_reported (U : Unicode) {t : DataType} {tp n : Text}
    (h : commonMysqlDataTypeMapInt t = some tp) (hn : n ∈ (reported t).map String.toList) (columnType : Text)
    (isDefaultNull unsigned strict : Bool) :
    convertStringDataType U Env.plain n columnType isDefaultNull unsigned strict =
      .ok (mayConvertNullType (byName t tp) isDefaultNull unsigned strict, [], false) := by
  obtain ⟨s, hs, rfl⟩ := List.mem_map.mp hn
  obtain ⟨e, he, rfl, htp⟩ := reported_mem h s hs
  obtain ⟨hlookup, hascii, hplain⟩ := reportedTypes_lookup e he
  show convertName U e.1.toList isDefaultNull unsigned strict = _
  rw [convertName, map_toLower_of_ascii U hascii, hlookup, htp]
  show (if "_".toList.isPrefixOf e.1.toList = true then _ else _) = _
  rw [hplain, if_neg Bool.false_ne_true]

/-! ## What a Go type shows -/

/-- The Go types that have a nullable form. -/
def nullable : List Text :=
  ["int64".toList, "int32".toList, "float64".toList, "bool".toList, "string".toList, "time.Time".toList]

/-- A nullable form is from package `sql`, and no other Go type is. -/
theorem isPrefixOf_sql : ∀ tp ∈ nullable, ∀ null unsigned strict : Bool,
    "sql.".toList.isPrefixOf (mayConvertNullType tp null unsigned strict) = null := by
  decide

theorem mayConvertNullType_inj : ∀ tp ∈ nullable, ∀ null null' unsigned strict : Bool,
    mayConvertNullType tp null unsigned strict = mayConvertNullType tp null' unsigned strict ↔ null = null' := by
  intro tp htp null null' unsigned strict
  constructor
  · intro heq
    rw [← isPrefixOf_sql tp htp null unsigned strict, heq, isPrefixOf_sql tp htp]
  · rintro rfl
    rfl

theorem mayConvertNullType_string : ∀ null unsigned unsigned' strict : Bool,
    mayConvertNullType "string".toList null unsigned strict =
      mayConvertNullType "string".toList null unsigned' strict := by
  intro null unsigned unsigned' strict
  cases null <;> cases unsigned <;> cases unsigned' <;> cases strict <;> rfl

theorem mayConvertNullType_byte : ∀ null unsigned strict : Bool,
    mayConvertNullType "byte".toList null unsigned strict = "byte".toList := by
  intro null unsigned strict
  cases null <;> cases unsigned <;> cases strict <;> rfl

theorem mayConvertNullType_int64_ne : ∀ null unsigned null' unsigned' strict : Bool,
    mayConvertNullType "int64".toList null unsigned strict ≠
        mayConvertNullType "int32".toList null' unsigned' strict ∧
      mayConvertNullType "bool".toList null unsigned strict ≠
        mayConvertNullType "int64".toList null' unsigned' strict := by
  decide

theorem convert_ne_of_renamed {t : DataType} {tp : Text} (h : commonMysqlDataTypeMapInt t = some tp)
    (ht : Renamed t) (null unsigned null' unsigned' strict : Bool) :
    mayConvertNullType tp null unsigned strict ≠ mayConvertNullType (byName t tp) null' unsigned' strict := by
  have hne := mayConvertNullType_int64_ne null unsigned null' unsigned' strict
  rcases ht with rfl | rfl | rfl | rfl
  · obtain rfl := Option.some.inj h
    exact hne.1
  · obtain rfl := Option.some.inj h
    exact hne.1
  · obtain rfl := Option.some.inj h
    exact hne.2
  · obtain rfl := Option.some.inj h
    exact hne.2

/-- A token other than that of `BIT` has a type with a nullable form. -/
theorem mem_nullable {t : DataType} {tp : Text} (h : commonMysqlDataTypeMapInt t = some tp) (ht : t ≠ .bit) :
    tp ∈ nullable := by
  cases t with
  | bit => exact absurd (Eq.refl _) ht
  | other code => cases h
  | _ =>
      obtain rfl := Option.some.inj h
      decide

/-- A column has the same Go type by its token and by its name when the name keeps the type and both sides take the
    column as nullable, or both as not. -/
theorem convert_eq_iff {t : DataType} {tp : Text} (h : commonMysqlDataTypeMapInt t = some tp)
    {null null' unsigned strict : Bool} :
    mayConvertNullType tp null unsigned strict = mayConvertNullType (byName t tp) null' unsigned strict ↔
      ¬Renamed t ∧ (t ≠ .bit → null = null') := by
  by_cases hren : Renamed t
  · have hne := convert_ne_of_renamed h hren null unsigned null' unsigned strict
    exact ⟨fun heq => absurd heq hne, fun hok => absurd hren hok.1⟩
  · rw [byName_of_not_renamed hren]
    by_cases hbit : t = .bit
    · subst hbit
      obtain rfl := Option.some.inj h
      rw [mayConvertNullType_byte, mayConvertNullType_byte]
      exact ⟨fun _ => ⟨hren, fun hne => absurd (Eq.refl _) hne⟩, fun _ => Eq.refl _⟩
    · rw [mayConvertNullType_inj tp (mem_nullable h hbit)]
      exact ⟨fun heq => ⟨hren, fun _ => heq⟩, fun hok => hok.2 hbit⟩

/-- The literals of `ENUM` and `SET` do not matter, whatever they say. -/
theorem convert_unsigned {t : DataType} {tp : Text} (h : commonMysqlDataTypeMapInt t = some tp)
    {null unsigned unsigned' strict : Bool} (hunsigned : t ≠ .enum → t ≠ .set → unsigned' = unsigned) :
    mayConvertNullType (byName t tp) null unsigned' strict = mayConvertNullType (byName t tp) null unsigned strict := by
  by_cases henum : t = .enum ∨ t = .set
  · have hstring : byName t tp = "string".toList := by
      rcases henum with rfl | rfl
      · exact (Option.some.inj h).symm
      · exact (Option.some.inj h).symm
    rw [hstring]
    exact mayConvertNullType_string null unsigned' unsigned strict
  · rw [hunsigned (fun he => henum (Or.inl he)) (fun hs => henum (Or.inr hs))]

end Goctl
end ServiceKit
