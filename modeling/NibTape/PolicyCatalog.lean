/-!
# Collecting policies from a directory

Policies may come as modules in a directory. A module is considered if it is no package
and its name does not begin with an underscore. It counts if it loads and offers each of
the three strategies as something that can be called.

The catalog lists the modules that count by their labels, in order. Modules are visited
in the order of their file names, and of two with one label the later is kept. Each
considered module that does not count gives one warning.
-/

namespace NibTape.PolicyCatalog

/-- What is found of a module in the directory. -/
structure Candidate where
  /-- The name of its file, without the ending. -/
  name : String
  isPackage : Bool := false
  /-- The reason why loading it fails, if it does. -/
  loadError : Option String := none
  /-- The label it gives itself. -/
  label : Option String := none
  /-- The names in it that stand for what can be called. -/
  callables : List String := []
  /-- The names in it that stand for something else; a name of both kinds does so in the end. -/
  values : List String := []
  deriving DecidableEq, Repr

def strategies : List String := ["retreat", "check_access", "leave_loop"]

/-- Why a module that was considered does not count. -/
inductive Warning where
  | notLoaded (name reason : String)
  | incomplete (name : String)
  deriving DecidableEq, Repr

/-- The name by which a module of the directory is loaded. -/
def qualified (name : String) : String := "nibvm.policies." ++ name

def Warning.render : Warning → String
  | notLoaded name reason =>
    "WARNING nibvm.registry: failed to import " ++ qualified name ++ ": " ++ reason ++
      " - skipping"
  | incomplete name =>
    "WARNING nibvm.registry: " ++ qualified name ++ " lacks " ++
      ", ".intercalate strategies ++ " - skipping"

def emptyMessage : String := "No valid bounds-checking policies found"

namespace Candidate

/-- The name of the file or directory that holds a module. -/
def fileName (c : Candidate) : String := if c.isPackage then c.name else c.name ++ ".py"

/-- Whether a name can be that of a module. -/
def isNamed (c : Candidate) : Bool := !c.name.isEmpty && !c.name.toList.contains '.'

def isConsidered (c : Candidate) : Bool :=
  !c.isPackage && c.isNamed && c.name.toList.head? != some '_'

/-- Whether a name in a module stands for what can be called. -/
def offers (c : Candidate) (strategy : String) : Bool :=
  c.callables.contains strategy && !c.values.contains strategy

def isComplete (c : Candidate) : Bool := strategies.all c.offers

/-- The label under which a module is listed. -/
def key (c : Candidate) : String := c.label.getD c.name

def isValid (c : Candidate) : Bool := c.loadError.isNone && c.isComplete

def warning? (c : Candidate) : Option Warning :=
  match c.loadError with
  | some reason => some (.notLoaded c.name reason)
  | none => if c.isComplete then none else some (.incomplete c.name)

end Candidate

/-- Puts an item in front of the first one with a later key; an item with the same key is
replaced. -/
def putBy {α : Type} (key : α → String) (a : α) : List α → List α
  | [] => [a]
  | b :: rest =>
    if key a = key b then a :: rest
    else if key a < key b then a :: b :: rest
    else b :: putBy key a rest

/-- Puts a module where its file name belongs; a module with the same file name is replaced. -/
def place (c : Candidate) (placed : List Candidate) : List Candidate :=
  putBy Candidate.fileName c placed

/-- The modules of a directory that are looked at, in the order of their file names. A
package hides a module of its name, and of two files of one name the later is kept. -/
def considered (directory : List Candidate) : List Candidate :=
  let packages := (directory.filter (·.isPackage)).map (·.name)
  let files := directory.filter fun c => c.isConsidered && !packages.contains c.name
  files.foldl (fun placed c => place c placed) []

/-- Lists a module under a label, in place of an earlier one, keeping the order of the
labels. -/
def put (key module : String) (listed : List (String × String)) : List (String × String) :=
  putBy Prod.fst (key, module) listed

/-- The labels with the modules listed under them, in the order of the labels. -/
def entries (directory : List Candidate) : List (String × String) :=
  ((considered directory).filter (·.isValid)).foldl
    (fun listed c => put c.key (qualified c.name) listed) []

def warnings (directory : List Candidate) : List Warning :=
  (considered directory).filterMap (·.warning?)

/-- The catalog of a directory, or `none` if no module counts. -/
def discover? (directory : List Candidate) : Option (List (String × String)) :=
  match entries directory with
  | [] => none
  | found => some found

end NibTape.PolicyCatalog
