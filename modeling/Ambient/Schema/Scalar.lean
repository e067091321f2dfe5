import Ambient.Text.AsciiCase
import Ambient.Text.Blank

/-!
# Scalar type names

The platform's scalar types fall into four categories, told from the type name
alone. Surrounding blanks and ASCII case of the name do not matter.
-/

namespace Ambient

inductive ScalarCategory where
  /-- Journal fields and list-valued fields. -/
  | journal
  /-- Dates, times and durations. -/
  | dateTime
  /-- Fields that hold a reference to a record. -/
  | reference
  | generic
  deriving DecidableEq, Inhabited, Repr

namespace Scalar

def journalTypes : List String :=
  ["journal", "journal_input", "journal_list", "glide_list"]

def dateTimeTypes : List String :=
  ["calendar_date_time", "date", "datetime", "due_date", "glide_date", "glide_date_time",
   "glide_duration", "glide_time", "glide_utc_time", "integer_date", "integer_time",
   "schedule_date_time", "time", "timer"]

def referenceTypes : List String :=
  ["currency2", "document_id", "domain_id", "reference", "source_id"]

/-- Types whose name is shown beside their display name. -/
def explicitTypes : List String :=
  ["document_id", "domain_id", "due_date", "glide_date", "glide_date_time", "glide_duration",
   "glide_list", "glide_time", "journal_list", "slushbucket", "source_id", "timer"]

/-- List types for which a maximal length says nothing. -/
def unboundedListTypes : List String :=
  ["glide_list", "journal_list", "slushbucket"]

/-- The form in which type names are compared. -/
def canonicalName (typeName : String) : String :=
  Text.asciiLower (Text.trim typeName)

def category (typeName : String) : ScalarCategory :=
  let name := canonicalName typeName
  if name ∈ journalTypes then .journal
  else if name ∈ dateTimeTypes then .dateTime
  else if name ∈ referenceTypes then .reference
  else .generic

def isExplicit (typeName : String) : Bool :=
  canonicalName typeName ∈ explicitTypes

def isUnboundedList (typeName : String) : Bool :=
  canonicalName typeName ∈ unboundedListTypes

end Scalar

end Ambient
