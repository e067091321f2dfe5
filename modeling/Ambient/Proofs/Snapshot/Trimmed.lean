import Ambient.Doc.Element
import Ambient.Proofs.Layout.Rewritten
import Ambient.Proofs.Snapshot.Rewritten
import Ambient.Proofs.Inheritance.Shape
import Ambient.Proofs.Text.Trimmed
import Ambient.Snapshot.Validation

/-!
# Attributes without blanks around them

An attribute that refers to something by name may be given with blanks around it, and
a blank one means that there is none. Trimming all of them, and dropping those that
are blank, is a snapshot that says the same: every place that looks at such an
attribute trims it first, and trimming twice is trimming once.
-/

namespace Ambient

def TableAttributes.trimmed (attributes : TableAttributes) : TableAttributes :=
  { attributes with
    superName := Text.present? attributes.superName
    package := Text.present? attributes.package
    numberPrefix := Text.present? attributes.numberPrefix
    scope := Text.present? attributes.scope }

def ElementAttributes.trimmed (attributes : ElementAttributes) : ElementAttributes :=
  { attributes with
    typeName := Text.trim attributes.typeName
    reference := Text.present? attributes.reference
    package := Text.present? attributes.package }

abbrev TableEntry.trimmed : TableEntry → TableEntry :=
  TableEntry.rewrite TableAttributes.trimmed ElementAttributes.trimmed

abbrev Table.trimmed : Table → Table := Table.rewrite TableAttributes.trimmed

abbrev Element.trimmed : Element → Element := Element.rewrite ElementAttributes.trimmed

def Snapshot.trimmed (snapshot : Snapshot) : Snapshot :=
  { snapshot with tables := snapshot.tables.mapValues TableEntry.trimmed }

/-! ## Tables -/

namespace Table

theorem keepsLineage_trimmed : Table.KeepsLineage Table.trimmed where
  name _ := rfl
  superName? table := Text.present?_present? table.superName

theorem rewrites_trimmed : (mode : RenderMode) → Table.Rewrites mode Table.trimmed :=
  keepsLineage_trimmed.rewrites fun table =>
    congrArg (Option.filter (· ≠ globalScope)) (Text.present?_present? table.scope)

end Table

namespace Doc

theorem packageLine_present? (package : Option Package) (name : Option String) :
    packageLine package (Text.present? name) = packageLine package name := by
  cases package with
  | none => exact congrArg (Option.map ("Package: " ++ ·)) (Text.present?_present? name)
  | some package => rfl

theorem recordDoc_trimmed (table : Table) (package : Option Package) :
    recordDoc table.trimmed package = recordDoc table package := by
  unfold recordDoc
  show withSection (withSection (withSection _ (Option.map _ (Text.present? (Text.present? _)))) _)
    (packageLine package (Text.present? _)) = _
  rw [packageLine_present?, Text.present?_present?]
  rfl

end Doc

/-! ## Elements -/

namespace Scalar

theorem canonicalName_trim (typeName : String) :
    canonicalName (Text.trim typeName) = canonicalName typeName :=
  congrArg Text.asciiLower (Text.trim_trim typeName)

theorem category_trim (typeName : String) : category (Text.trim typeName) = category typeName := by
  unfold category
  rw [canonicalName_trim]

theorem isExplicit_trim (typeName : String) :
    isExplicit (Text.trim typeName) = isExplicit typeName := by
  unfold isExplicit
  rw [canonicalName_trim]

end Scalar

namespace Element

variable (element other : Element)

theorem sameShape_trimmed : element.trimmed.sameShape other.trimmed = element.sameShape other := by
  show (Text.sameIgnoringCase (Text.trim (Text.trim _)) (Text.trim (Text.trim _))
    && Text.present? (Text.present? _) == Text.present? (Text.present? _) && _ && _) = _
  rw [Text.trim_trim, Text.trim_trim, Text.present?_present?, Text.present?_present?]
  rfl

theorem sameDocumentation_trimmed :
    element.trimmed.sameDocumentation other.trimmed = element.sameDocumentation other := by
  show (_ && _ && _ && _ && Text.present? (Text.present? _) == Text.present? (Text.present? _)
    && _) = _
  rw [Text.present?_present?, Text.present?_present?]
  rfl

theorem disposition_trimmed (counterpart : Option Element) :
    element.trimmed.disposition (counterpart.map Element.trimmed) =
      element.disposition counterpart := by
  cases counterpart with
  | none => rfl
  | some ancestor =>
    unfold disposition
    rw [Option.map_some]
    simp only [sameShape_trimmed, sameDocumentation_trimmed]

end Element

namespace Doc

theorem typeLine_trimmed (element : Element) (type : Option ScalarType) (explicit : Bool) :
    typeLine element.trimmed type explicit = typeLine element type explicit := by
  have hname : Text.trim ((type.map (·.name)).getD (Text.trim element.typeName)) =
      Text.trim ((type.map (·.name)).getD element.typeName) := by
    cases type with
    | none => exact Text.trim_trim element.typeName
    | some type => rfl
  unfold typeLine
  simp only [Element.trimmed, Element.rewrite, ElementAttributes.trimmed, hname]

theorem elementDoc_trimmed (element : Element) (type : Option ScalarType)
    (package : Option Package) (explicit : Bool) :
    elementDoc element.trimmed type package explicit =
      elementDoc element type package explicit := by
  unfold elementDoc
  rw [typeLine_trimmed]
  show withSection _ (packageLine package (Text.present? _)) = _
  rw [packageLine_present?]
  rfl

end Doc

namespace Site

theorem fieldType_trimmed {site : Site} (hindex : site.index.contains "" = false)
    (element : Element) :
    site.fieldType element.trimmed = site.fieldType element := by
  have hreference : ((Text.present? element.reference).map Text.trim).bind
        (site.reference .fields .elements) =
      (element.reference.map Text.trim).bind (site.reference .fields .elements) := by
    rw [Text.map_trim_present?, bind_reference_eq hindex]
  unfold fieldType Group.scalarType
  simp only [Element.trimmed, Element.rewrite, ElementAttributes.trimmed, hreference,
    Scalar.category_trim]

end Site

/-- Whatever is told from an attribute is told from it when it is trimmed. -/
theorem keepsDeclarations_trimmed :
    KeepsDeclarations TableAttributes.trimmed ElementAttributes.trimmed where
  lineage := Table.keepsLineage_trimmed
  labelOrName _ := rfl
  package table := Text.present?_present? table.package
  recordDoc := Doc.recordDoc_trimmed
  typeName element := by
    show (some (Text.trim (Text.trim element.typeName))).filter _ = _
    rw [Text.trim_trim]
    rfl
  elementPackage element := Text.present?_present? element.package
  elementDoc := Doc.elementDoc_trimmed
  isExplicit element := Scalar.isExplicit_trim element.typeName
  disposition := Element.disposition_trimmed
  fieldType _ hindex := Site.fieldType_trimmed hindex

/-! ## Validation -/

namespace TableEntry

variable (entry : TableEntry)

theorem scopeViolation?_trimmed : entry.trimmed.scopeViolation? = entry.scopeViolation? := by
  unfold scopeViolation?
  show Option.bind (Text.present? (Text.present? _)) _ = _
  rw [Text.present?_present?]

/-- A table that has a name extends itself or not, whether or not a blank super table counts. -/
theorem extendsViolation?_trimmed {name : String} (hname : name ≠ "") :
    entry.trimmed.extendsViolation? name = entry.extendsViolation? name := by
  have hsuper : (Text.present? entry.attributes.superName).map Text.trim = some name ↔
      entry.attributes.superName.map Text.trim = some name := by
    rw [Text.map_trim_present?, Text.present?, Option.filter_eq_some_iff]
    refine and_iff_left_of_imp fun _ => ?_
    simpa [String.isEmpty_iff] using hname
  unfold extendsViolation?
  simp only [TableEntry.trimmed, TableEntry.rewrite, TableAttributes.trimmed, hsuper]

theorem elementViolation?_trimmed (name : String) :
    entry.trimmed.elementViolation? name = entry.elementViolation? name := by
  unfold elementViolation?
  show List.findSome? _ (NameMap.keys (NameMap.mapValues _ _)) = _
  rw [NameMap.keys_mapValues]

theorem violation?_trimmed (name : String) :
    entry.trimmed.violation? name = entry.violation? name := by
  unfold violation?
  rw [scopeViolation?_trimmed, elementViolation?_trimmed]
  by_cases hname : name = ""
  · -- the empty name is a violation before anything else is looked at
    subst hname
    rfl
  · rw [extendsViolation?_trimmed entry hname]

end TableEntry

/-- Trimming is no matter of validity. -/
theorem Snapshot.violation?_trimmed (snapshot : Snapshot) :
    snapshot.trimmed.violation? = snapshot.violation? := by
  unfold violation?
  show Option.or _ (List.findSome? _ (List.map _ _)) = _
  rw [List.findSome?_map]
  congr 2
  funext entry
  exact entry.2.violation?_trimmed entry.1

end Ambient
