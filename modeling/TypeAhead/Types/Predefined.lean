/-
  TypeAhead.Types.Predefined — THE TYPES THAT EVERY EXPRESSION KNOWS.

  The predefined types with the members that are offered for them, the keywords
  that stand for some of them, and the well-known types that a bare name may
  denote.
-/
import TypeAhead.Types.Basic

namespace TypeAhead

/-! ## §1. Names. -/

namespace Known

def object : String := "System.Object"
def boolean : String := "System.Boolean"
def char : String := "System.Char"
def string : String := "System.String"
def sbyte : String := "System.SByte"
def byte : String := "System.Byte"
def int16 : String := "System.Int16"
def uint16 : String := "System.UInt16"
def int32 : String := "System.Int32"
def uint32 : String := "System.UInt32"
def int64 : String := "System.Int64"
def uint64 : String := "System.UInt64"
def single : String := "System.Single"
def double : String := "System.Double"
def decimal : String := "System.Decimal"
def dateTime : String := "System.DateTime"
def dateTimeOffset : String := "System.DateTimeOffset"
def timeSpan : String := "System.TimeSpan"
def guid : String := "System.Guid"
def math : String := "System.Math"
def convert : String := "System.Convert"
def dayOfWeek : String := "System.DayOfWeek"

/-- The numeric types, from the narrowest to the widest. -/
def numeric : List String :=
  [sbyte, byte, int16, uint16, int32, uint32, int64, uint64, single, double, decimal]

/-- The types that a bare name may denote, in the order in which they are tried. -/
def wellKnown : List String :=
  [object, boolean, char, string, sbyte, byte, int16, uint16, int32, uint32, int64, uint64,
    single, double, decimal, dateTime, dateTimeOffset, timeSpan, guid, math, convert]

/-- The keywords that stand for types. -/
def keywords : List (String × String) :=
  [("object", object), ("bool", boolean), ("char", char), ("string", string), ("sbyte", sbyte),
    ("byte", byte), ("short", int16), ("ushort", uint16), ("int", int32), ("uint", uint32),
    ("long", int64), ("ulong", uint64), ("float", single), ("double", double),
    ("decimal", decimal)]

/-- The full name that a keyword stands for. -/
def ofKeyword? (word : String) : Option String := keywords.lookup word

/-- Whether the name is of a number. -/
def isNumeric (name : String) : Bool := numeric.contains name

end Known

namespace Predefined

open Known

/-! ## §2. Members. -/

/-- A member of an instance. -/
def own (name type : String) : DataMember := ⟨name, type, false⟩

/-- A static member. -/
def shared (name type : String) : DataMember := ⟨name, type, true⟩

/-- Parameters of the given types, named by their places. -/
def parameters (types : List String) : List Parameter :=
  types.zipIdx.map fun (type, i) => ⟨s!"arg{i}", type⟩

/-- A method of an instance. -/
def method (name : String) (types : List String) (returns : String) : Method :=
  ⟨name, parameters types, returns, false⟩

/-- A static method. -/
def sharedMethod (name : String) (types : List String) (returns : String) : Method :=
  ⟨name, parameters types, returns, true⟩

/-- The name of a predefined type without its namespace. -/
def simpleName (name : String) : String := String.ofList (name.toList.drop "System.".length)

/-- A predefined type of a kind. -/
def type (name : String) (kind : TypeKind) : TypeDef :=
  { name := simpleName name, space := "System", kind := kind }

/-! ## §3. Types. -/

/-- The root of all classes. -/
def objectType : TypeDef :=
  { type object .object with
    methods := [
      method "ToString" [] string,
      method "Equals" [object] boolean,
      method "GetHashCode" [] int32,
      sharedMethod "ReferenceEquals" [object, object] boolean,
      sharedMethod "Equals" [object, object] boolean],
    constructors := [
      parameters []] }

/-- Truth values. -/
def booleanType : TypeDef :=
  { type boolean .value with
    fields := [
      shared "TrueString" string,
      shared "FalseString" string],
    methods := [
      method "CompareTo" [boolean] int32,
      method "Equals" [boolean] boolean,
      sharedMethod "Parse" [string] boolean,
      sharedMethod "TryParse" [string, boolean] boolean] }

/-- Characters. -/
def charType : TypeDef :=
  { type char .value with
    fields := [
      shared "MaxValue" char,
      shared "MinValue" char],
    methods := [
      method "CompareTo" [char] int32,
      method "Equals" [char] boolean,
      sharedMethod "ToUpper" [char] char,
      sharedMethod "ToLower" [char] char,
      sharedMethod "GetNumericValue" [char] double,
      sharedMethod "Parse" [string] char] ++
      ["IsDigit", "IsLetter", "IsLetterOrDigit", "IsWhiteSpace", "IsUpper", "IsLower",
        "IsPunctuation"].map (sharedMethod · [char] boolean) }

/-- Texts. -/
def stringType : TypeDef :=
  { type string .object with
    elementType := some char,
    fields := [
      shared "Empty" string],
    properties := [
      own "Length" int32],
    methods := [
      method "Contains" [string] boolean,
      method "Contains" [char] boolean,
      method "StartsWith" [string] boolean,
      method "EndsWith" [string] boolean,
      method "IndexOf" [string] int32,
      method "IndexOf" [char] int32,
      method "IndexOf" [string, int32] int32,
      method "LastIndexOf" [string] int32,
      method "LastIndexOf" [char] int32,
      method "Substring" [int32] string,
      method "Substring" [int32, int32] string,
      method "ToUpper" [] string,
      method "ToLower" [] string,
      method "ToUpperInvariant" [] string,
      method "ToLowerInvariant" [] string,
      method "Trim" [] string,
      method "TrimStart" [] string,
      method "TrimEnd" [] string,
      method "Replace" [string, string] string,
      method "Replace" [char, char] string,
      method "Split" [char] "System.String[]",
      method "PadLeft" [int32] string,
      method "PadLeft" [int32, char] string,
      method "PadRight" [int32] string,
      method "PadRight" [int32, char] string,
      method "Insert" [int32, string] string,
      method "Remove" [int32] string,
      method "Remove" [int32, int32] string,
      method "CompareTo" [string] int32,
      method "Equals" [string] boolean,
      method "ToCharArray" [] "System.Char[]",
      sharedMethod "IsNullOrEmpty" [string] boolean,
      sharedMethod "IsNullOrWhiteSpace" [string] boolean,
      sharedMethod "Concat" [string, string] string,
      sharedMethod "Concat" [object, object] string,
      sharedMethod "Join" [string, "System.String[]"] string,
      sharedMethod "Format" [string, object] string,
      sharedMethod "Format" [string, object, object] string,
      sharedMethod "Compare" [string, string] int32,
      sharedMethod "Equals" [string, string] boolean],
    indexers := [
      ⟨parameters [int32], char⟩],
    constructors := [
      parameters [char, int32]] }

/-- What only binary floating point has. -/
def floatingFields (name : String) : List DataMember :=
  if name = single || name = double then
    ["NaN", "PositiveInfinity", "NegativeInfinity", "Epsilon"].map (shared · name)
  else []

/-- What only decimal numbers have as fields. -/
def decimalFields (name : String) : List DataMember :=
  if name = decimal then [shared "Zero" decimal, shared "One" decimal] else []

/-- What only binary floating point or only decimal numbers have as methods. -/
def extraMethods (name : String) : List Method :=
  if name = single || name = double then
    [sharedMethod "IsNaN" [name] boolean, sharedMethod "IsInfinity" [name] boolean]
  else if name = decimal then
    [sharedMethod "Round" [decimal, int32] decimal, sharedMethod "Truncate" [decimal] decimal]
  else []

/-- Numbers. -/
def numericType (name : String) : TypeDef :=
  { type name .value with
    fields := [shared "MaxValue" name, shared "MinValue" name] ++ floatingFields name ++
      decimalFields name,
    methods := [
      method "CompareTo" [name] int32,
      method "Equals" [name] boolean,
      method "ToString" [string] string,
      sharedMethod "Parse" [string] name,
      sharedMethod "TryParse" [string, name] boolean] ++ extraMethods name }

/-- The parts of a date that are numbers. -/
def dateParts : List DataMember :=
  ["Year", "Month", "Day", "Hour", "Minute", "Second", "Millisecond", "DayOfYear"].map (own · int32)

/-- Points in time. -/
def dateTimeType : TypeDef :=
  { type dateTime .value with
    fields := [
      shared "MinValue" dateTime,
      shared "MaxValue" dateTime],
    properties := [
      shared "Now" dateTime,
      shared "UtcNow" dateTime,
      shared "Today" dateTime] ++ dateParts ++ [
      own "Ticks" int64,
      own "DayOfWeek" dayOfWeek,
      own "Date" dateTime,
      own "TimeOfDay" timeSpan],
    methods := [
      method "AddDays" [double] dateTime,
      method "AddHours" [double] dateTime,
      method "AddMinutes" [double] dateTime,
      method "AddSeconds" [double] dateTime,
      method "AddMilliseconds" [double] dateTime,
      method "AddMonths" [int32] dateTime,
      method "AddYears" [int32] dateTime,
      method "AddTicks" [int64] dateTime,
      method "Add" [timeSpan] dateTime,
      method "Subtract" [timeSpan] dateTime,
      method "Subtract" [dateTime] timeSpan,
      method "ToString" [string] string,
      method "ToUniversalTime" [] dateTime,
      method "ToLocalTime" [] dateTime,
      method "CompareTo" [dateTime] int32,
      sharedMethod "Parse" [string] dateTime,
      sharedMethod "TryParse" [string, dateTime] boolean,
      sharedMethod "DaysInMonth" [int32, int32] int32,
      sharedMethod "IsLeapYear" [int32] boolean],
    constructors := [
      parameters [int64],
      parameters [int32, int32, int32],
      parameters [int32, int32, int32, int32, int32, int32]] }

/-- Points in time, with an offset from universal time. -/
def dateTimeOffsetType : TypeDef :=
  { type dateTimeOffset .value with
    fields := [
      shared "MinValue" dateTimeOffset,
      shared "MaxValue" dateTimeOffset],
    properties := [
      shared "Now" dateTimeOffset,
      shared "UtcNow" dateTimeOffset] ++ dateParts ++ [
      own "Ticks" int64,
      own "DayOfWeek" dayOfWeek,
      own "DateTime" dateTime,
      own "UtcDateTime" dateTime,
      own "LocalDateTime" dateTime,
      own "Offset" timeSpan,
      own "TimeOfDay" timeSpan],
    methods := [
      method "AddDays" [double] dateTimeOffset,
      method "AddHours" [double] dateTimeOffset,
      method "AddMinutes" [double] dateTimeOffset,
      method "AddSeconds" [double] dateTimeOffset,
      method "AddMilliseconds" [double] dateTimeOffset,
      method "Add" [timeSpan] dateTimeOffset,
      method "Subtract" [timeSpan] dateTimeOffset,
      method "Subtract" [dateTimeOffset] timeSpan,
      method "ToUnixTimeSeconds" [] int64,
      method "ToUnixTimeMilliseconds" [] int64,
      method "ToString" [string] string,
      sharedMethod "FromUnixTimeSeconds" [int64] dateTimeOffset,
      sharedMethod "FromUnixTimeMilliseconds" [int64] dateTimeOffset,
      sharedMethod "Parse" [string] dateTimeOffset],
    constructors := [
      parameters [dateTime],
      parameters [dateTime, timeSpan]] }

/-- Lengths of time. -/
def timeSpanType : TypeDef :=
  { type timeSpan .value with
    fields := [
      shared "Zero" timeSpan,
      shared "MaxValue" timeSpan,
      shared "MinValue" timeSpan],
    properties := ["Days", "Hours", "Minutes", "Seconds", "Milliseconds"].map (own · int32) ++
      ["TotalDays", "TotalHours", "TotalMinutes", "TotalSeconds", "TotalMilliseconds"].map
        (own · double) ++ [own "Ticks" int64],
    methods :=
      ["FromDays", "FromHours", "FromMinutes", "FromSeconds", "FromMilliseconds"].map
        (sharedMethod · [double] timeSpan) ++ [
      method "Add" [timeSpan] timeSpan,
      method "Subtract" [timeSpan] timeSpan,
      method "Negate" [] timeSpan,
      method "Duration" [] timeSpan,
      method "ToString" [string] string,
      sharedMethod "FromTicks" [int64] timeSpan,
      sharedMethod "Parse" [string] timeSpan],
    constructors := [
      parameters [int64],
      parameters [int32, int32, int32],
      parameters [int32, int32, int32, int32]] }

/-- Unique identifiers. -/
def guidType : TypeDef :=
  { type guid .value with
    fields := [
      shared "Empty" guid],
    methods := [
      method "ToByteArray" [] "System.Byte[]",
      method "ToString" [string] string,
      method "CompareTo" [guid] int32,
      sharedMethod "NewGuid" [] guid,
      sharedMethod "Parse" [string] guid],
    constructors := [
      parameters [string]] }

/-- Mathematical functions. -/
def mathType : TypeDef :=
  { type math .holder with
    fields := [shared "PI" double, shared "E" double],
    methods :=
      [sbyte, int16, int32, int64, single, double, decimal].flatMap (fun name => [
        sharedMethod "Abs" [name] name,
        sharedMethod "Sign" [name] int32]) ++
      [byte, sbyte, int16, uint16, int32, uint32, int64, uint64, single, double, decimal].flatMap
        (fun name => [
          sharedMethod "Max" [name, name] name,
          sharedMethod "Min" [name, name] name,
          sharedMethod "Clamp" [name, name, name] name]) ++
      ["Sqrt", "Exp", "Log", "Log10", "Sin", "Cos", "Tan", "Asin", "Acos", "Atan", "Sinh", "Cosh",
        "Tanh"].map (sharedMethod · [double] double) ++
      ["Round", "Floor", "Ceiling", "Truncate"].flatMap (fun name => [
        sharedMethod name [double] double,
        sharedMethod name [decimal] decimal]) ++ [
      sharedMethod "Round" [double, int32] double,
      sharedMethod "Round" [decimal, int32] decimal,
      sharedMethod "Pow" [double, double] double,
      sharedMethod "Log" [double, double] double,
      sharedMethod "Atan2" [double, double] double] }

/-- Conversions between the predefined types. -/
def convertType : TypeDef :=
  { type convert .holder with
    methods := [
      ("ToBoolean", boolean),
      ("ToChar", char),
      ("ToSByte", sbyte),
      ("ToByte", byte),
      ("ToInt16", int16),
      ("ToUInt16", uint16),
      ("ToInt32", int32),
      ("ToUInt32", uint32),
      ("ToInt64", int64),
      ("ToUInt64", uint64),
      ("ToSingle", single),
      ("ToDouble", double),
      ("ToDecimal", decimal),
      ("ToDateTime", dateTime),
      ("ToString", string)].flatMap (fun (name, returns) => [
        sharedMethod name [object] returns,
        sharedMethod name [string] returns]) ++ [
      sharedMethod "ToBase64String" ["System.Byte[]"] string,
      sharedMethod "FromBase64String" [string] "System.Byte[]",
      sharedMethod "ChangeType" [object, object] object] }

/-- The days of the week. -/
def dayOfWeekType : TypeDef :=
  { type dayOfWeek .enumeration with
    fields := ["Sunday", "Monday", "Tuesday", "Wednesday", "Thursday", "Friday", "Saturday"].map
      (shared · dayOfWeek) }

end Predefined

/-! ## §4. The table. -/

open Predefined in
/-- All predefined types, in the order in which they are searched. -/
def predefined : List TypeDef :=
  [objectType, booleanType, charType, stringType] ++ Known.numeric.map numericType ++
    [dateTimeType, dateTimeOffsetType, timeSpanType, guidType, mathType, convertType,
      dayOfWeekType]

/-- The predefined types with their full names. -/
def predefinedNamed : List (String × TypeDef) := predefined.map fun t => (t.fullName, t)

/-- Whether the type is a predefined one. -/
def TypeDef.isPredefined (t : TypeDef) : Bool := t.isAmong predefined

end TypeAhead
