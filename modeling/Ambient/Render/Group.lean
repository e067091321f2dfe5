import Ambient.Render.Pass
import Ambient.Render.TableDeclaration

/-!
# Rendering a group

A group is rendered in three passes over its tables, one for each of its
namespaces. The group of a scope is enclosed in the scope's namespace, under a
header for each scope value of its tables that has a label to show.
-/

namespace Ambient.PassM

/-- Adds one of the three namespaces of a group. -/
def encloseKind (site : Site) (kind : NamespaceKind) (body : PassM Unit) : PassM Unit :=
  enclose site.group.namespaceKeyword (site.group.namespaceName kind) body

def recordPass (site : Site) (tables : List Table) : PassM Unit :=
  encloseKind site .records <|
    addEach (fun table => return .alias (← ofCache (CacheM.recordAlias site table))) tables

def elementPass (site : Site) (tables : List Table) : PassM Unit :=
  encloseKind site .elements <|
    addEach (fun table => return .alias (site.elementAlias table)) tables

/-- Cancellation is noticed before each interface. -/
def fieldsPass (site : Site) (tables : List Table) : PassM Unit :=
  encloseKind site .fields <|
    addEach (fun table => do
      checkpoint
      return .interface (← ofCache (CacheM.fieldsInterface site table))) tables

def passes (site : Site) (tables : List Table) : PassM Unit := do
  checkpoint
  recordPass site tables
  checkpoint
  add .blank
  elementPass site tables
  checkpoint
  add .blank
  fieldsPass site tables

/-- One header for each scope value of the tables, in order, where there is a label to show. -/
def scopeHeaders (group : Group) (tables : List Table) : CacheM (List (List String)) := do
  let keys := sortNames (tables.filterMap Table.scopeKey?)
  let scopes ← keys.mapM fun key => CacheM.scope (some key)
  return scopes.filterMap fun scope => scope.bind group.scopeHeader?

def renderGroup (site : Site) (tables : List Table) : PassM Unit :=
  match site.group.enclosing? with
  | none => passes site tables
  | some name => do
    let headers ← ofCache (scopeHeaders site.group tables)
    headers.forM fun header => add (.comment header)
    enclose "declare namespace" name (passes site tables)

end Ambient.PassM
