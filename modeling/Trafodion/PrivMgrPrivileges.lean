import Mathlib.Data.Finset.BooleanAlgebra
import Trafodion.FiniteMaps

/-!
# Object privileges

The metadata table OBJECT_PRIVILEGES holds one row for each object, grantor and grantee,
with a bitmap of the privileges granted and one of those granted with grant option.
`grantObjectPriv` and `revokeObjectPriv` change the row of one grantor and grantee, after
limiting the request to what the grantor holds with grant option, and then the rows of
the owners of the views over the object.
-/
namespace Trafodion.PrivMgr

inductive PrivType
  | select
  | insert
  | delete
  | update
  | usage
  | references
  | execute
  | create
  | alter
  | drop
  deriving DecidableEq, Repr

instance : Fintype PrivType where
  elems := {.select, .insert, .delete, .update, .usage, .references, .execute, .create,
    .alter, .drop}
  complete p := by cases p <;> decide

inductive ObjectType
  | baseTable
  | view
  | library
  | userDefinedRoutine
  | sequenceGenerator
  deriving DecidableEq, Repr

def ObjectType.isObject : ObjectType → Bool
  | .baseTable | .view => true
  | _ => false

inductive Status
  | internalError
  | invalidPrivilege (text : String)
  | duplicatePrivileges
  | notAllowedForObjectType
  | privilegeNotGranted
  | notAuthorized
  | dependentObjectsExist (name : ℕ)
  deriving DecidableEq, Repr

/-! ### Descriptors -/

/-- `PrivMgrCoreDesc`: the privileges, and the privileges with grant option. -/
@[ext] structure CoreDesc where
  priv : Finset PrivType
  wgo : Finset PrivType
  deriving DecidableEq

namespace CoreDesc

def empty : CoreDesc := ⟨∅, ∅⟩

def isNull (d : CoreDesc) : Prop := d.priv = ∅ ∧ d.wgo = ∅

instance (d : CoreDesc) : Decidable d.isNull := inferInstanceAs (Decidable (_ ∧ _))

variable (d other : CoreDesc)

def unionOfPrivs : CoreDesc :=
  ⟨d.priv ∪ other.priv, d.wgo ∪ other.wgo⟩

def intersectionOfPrivs : CoreDesc :=
  ⟨d.priv ∩ other.priv, d.wgo ∩ other.wgo⟩

def complement (d : CoreDesc) : CoreDesc := ⟨d.privᶜ, d.wgoᶜ⟩

def limitToGrantable : CoreDesc :=
  ⟨d.priv ∩ other.wgo, d.wgo ∩ other.wgo⟩

/-- What `grantPrivs` leaves in the descriptor it is called on: the bits that the other
descriptor does not have yet. The result is NONE when there are none. -/
def newlyGranted : CoreDesc :=
  ⟨d.priv \ other.priv, d.wgo \ other.wgo⟩

def testAndSetBit (d : CoreDesc) (p : PrivType) (isWgoSpecified isGOFSpecified : Bool) :
    Bool × CoreDesc :=
  if isGOFSpecified then
    if p ∈ d.wgo then (false, d) else (true, { d with wgo := insert p d.wgo })
  else if p ∈ d.priv then (false, d)
  else (true, ⟨insert p d.priv, if isWgoSpecified then insert p d.wgo else d.wgo.erase p⟩)

/-- The bits that `setPriv` and `setWgo` change for ALL_DML. -/
def allDml : Finset PrivType :=
  {.select, .insert, .update, .usage, .delete, .references, .execute}

def setAllDml (d : CoreDesc) (isWgoSpecified isGOFSpecified : Bool) : CoreDesc :=
  if isGOFSpecified then { d with wgo := d.wgo ∪ allDml }
  else ⟨d.priv ∪ allDml, if isWgoSpecified then d.wgo ∪ allDml else d.wgo \ allDml⟩

end CoreDesc

/-- The privileges that `setAll..GrantPrivileges` sets for a type of object. -/
def ObjectType.allPrivs : ObjectType → Finset PrivType
  | .baseTable | .view => {.select, .insert, .delete, .update, .references}
  | .library => {.update, .usage}
  | .userDefinedRoutine => {.execute}
  | .sequenceGenerator => {.usage}

variable (objectType : ObjectType)

def setAllGrantPrivileges (wgo : Bool) : CoreDesc :=
  ⟨objectType.allPrivs, if wgo then objectType.allPrivs else ∅⟩

inductive PrivWord
  | select
  | insert
  | delete
  | update
  | usage
  | execute
  | references
  | allDml
  | other (text : String)
  deriving DecidableEq, Repr

def PrivWord.bit : PrivWord → Option (PrivType × Bool)
  | .select => some (.select, objectType.isObject)
  | .insert => some (.insert, objectType.isObject)
  | .delete => some (.delete, objectType.isObject)
  | .update => some (.update, objectType.isObject || objectType = .library)
  | .usage => some (.usage, objectType = .library || objectType = .sequenceGenerator)
  | .execute => some (.execute, objectType = .userDefinedRoutine)
  | .references => some (.references, objectType.isObject)
  | .allDml => none
  | .other _ => none

/-- The loop of `convertPrivsToDesc` over the privilege list. The flag for a duplicate is
assigned anew at every single privilege, so that only the last one counts; a privilege
that does not fit the object's type ends the loop. -/
def convertPrivsList (objectType : ObjectType) (isWgoSpecified isGOFSpecified : Bool) :
    List PrivWord → Bool → CoreDesc → Except Status CoreDesc
  | [], isDup, desc => if isDup then .error .duplicatePrivileges else .ok desc
  | .other text :: _, _, _ => .error (.invalidPrivilege text)
  | word :: words, isDup, desc =>
    match word.bit objectType with
    | some (p, true) =>
      let (set, desc) := desc.testAndSetBit p isWgoSpecified isGOFSpecified
      convertPrivsList objectType isWgoSpecified isGOFSpecified words (!set) desc
    | some (_, false) =>
      if isDup then .error .duplicatePrivileges else .error .notAllowedForObjectType
    | none =>
      if objectType.isObject then
        convertPrivsList objectType isWgoSpecified isGOFSpecified words isDup
          (desc.setAllDml isWgoSpecified isGOFSpecified)
      else if isDup then .error .duplicatePrivileges
      else .error .notAllowedForObjectType

def convertPrivsToDesc
    (isAllSpecified isWgoSpecified isGOFSpecified : Bool) (privsList : List PrivWord) :
    Except Status CoreDesc :=
  if isAllSpecified then .ok (setAllGrantPrivileges objectType isWgoSpecified)
  else convertPrivsList objectType isWgoSpecified isGOFSpecified privsList false .empty

/-! ### The table and the catalog -/

abbrev ObjectUID := ℕ

abbrev AuthID := ℤ

def publicAuthID : AuthID := -1

def systemAuthID : AuthID := -2

structure RowKey where
  objectUID : ObjectUID
  grantorID : AuthID
  granteeID : AuthID
  deriving DecidableEq, Repr

abbrev ObjectPrivsTable := AList fun _ : RowKey => CoreDesc

variable (grantorID : AuthID) (table : ObjectPrivsTable)

/-- `updateWhere` on a primary key: a key without a row is no error. -/
def ObjectPrivsTable.updateWhere (key : RowKey)
    (privs : CoreDesc) : ObjectPrivsTable :=
  match table.lookup key with
  | none => table
  | some _ => table.insert key privs

structure ViewUsage where
  viewUID : ObjectUID
  viewOwner : AuthID
  deriving DecidableEq, Repr

/-- What the metadata says about users, views and constraints. Views are created over
existing objects, so that the number of levels of views above an object falls from the
object to a view over it. -/
structure Catalog where
  fetchRolesForUser : AuthID → List AuthID
  viewsThatReferenceObject : ObjectUID → List ViewUsage
  objectsThatViewReferences : ObjectUID → List ObjectUID
  referencingTablesForConstraints : ObjectUID → List ObjectUID
  /-- The UID of the table OBJECT_PRIVILEGES. -/
  objectPrivileges : ObjectUID
  levels : ObjectUID → ℕ
  levels_lt : ∀ uid, ∀ view ∈ viewsThatReferenceObject uid, levels view.viewUID < levels uid
  /-- Both directions are read from the same table of usages. -/
  references : ∀ uid, ∀ view ∈ viewsThatReferenceObject uid,
    ∀ uid' ∈ objectsThatViewReferences view.viewUID, view ∈ viewsThatReferenceObject uid'

variable (catalog : Catalog)

def Catalog.listOfIDs (id : AuthID) : List AuthID :=
  publicAuthID :: id :: catalog.fetchRolesForUser id

def getRowsForGrantee (table : ObjectPrivsTable) (uid : ObjectUID)
    (granteeID : AuthID) : List (Sigma fun _ : RowKey => CoreDesc) :=
  table.entries.filter fun row =>
    row.1.objectUID = uid ∧ row.1.granteeID ∈ catalog.listOfIDs granteeID

def getPrivsFromAllGrantors (table : ObjectPrivsTable)
    (uid : ObjectUID) (granteeID : AuthID) : CoreDesc :=
  if granteeID = systemAuthID then ⟨Finset.univ, Finset.univ⟩
  else (getRowsForGrantee catalog table uid granteeID).foldl
    (fun privs row => privs.unionOfPrivs row.2) .empty

/-! ### Views -/

structure ObjectUsage where
  objectUID : ObjectUID
  objectOwner : AuthID
  objectType : ObjectType
  originalPrivs : CoreDesc
  updatedPrivs : CoreDesc
  deriving DecidableEq

inductive PrivCommand
  | grantObject
  | revokeObjectRestrict
  deriving DecidableEq, Repr

/-- The privileges of a row with the changes decided so far; the last change to the row
counts. A change is matched with the command's own grantor. -/
def currentPrivs (listOfChangedPrivs : List ObjectUsage)
    (row : Sigma fun _ : RowKey => CoreDesc) : CoreDesc :=
  listOfChangedPrivs.foldl (fun current obj =>
    if obj.objectUID = row.1.objectUID ∧ grantorID = row.1.grantorID ∧
      obj.objectOwner = row.1.granteeID then obj.updatedPrivs else current) row.2

/-- Adds the original and the current privileges of a grantee on an object to what the
two descriptors hold already. -/
def summarizeCurrentAndOriginalPrivs (table : ObjectPrivsTable)
    (grantorID : AuthID) (uid : ObjectUID) (granteeID : AuthID)
    (listOfChangedPrivs : List ObjectUsage) (summarized : CoreDesc × CoreDesc) :
    CoreDesc × CoreDesc :=
  (getRowsForGrantee catalog table uid granteeID).foldl (fun summarized row =>
    (summarized.1.unionOfPrivs row.2,
      summarized.2.unionOfPrivs (currentPrivs grantorID listOfChangedPrivs row))) summarized

/-- The variables of the loop of `gatherViewPrivileges`. The first two are declared
outside the loop and are not cleared between the referenced objects. -/
structure Gathering where
  privs : CoreDesc × CoreDesc
  summarizedOriginalPrivs : CoreDesc
  summarizedCurrentPrivs : CoreDesc

def Gathering.reference (table : ObjectPrivsTable)
    (grantorID viewOwner : AuthID) (listOfAffectedObjects : List ObjectUsage)
    (g : Gathering) (uid : ObjectUID) : Gathering :=
  let privs := summarizeCurrentAndOriginalPrivs catalog table grantorID uid viewOwner
    listOfAffectedObjects g.privs
  ⟨privs, g.summarizedOriginalPrivs.intersectionOfPrivs privs.1,
    g.summarizedCurrentPrivs.intersectionOfPrivs privs.2⟩

def gatherViewPrivileges (table : ObjectPrivsTable)
    (grantorID : AuthID) (view : ViewUsage) (listOfAffectedObjects : List ObjectUsage) :
    CoreDesc × CoreDesc :=
  let all := setAllGrantPrivileges .view true
  let g := (catalog.objectsThatViewReferences view.viewUID).foldl
    (Gathering.reference catalog table grantorID view.viewOwner listOfAffectedObjects)
    ⟨(.empty, .empty), all, all⟩
  (g.summarizedOriginalPrivs, g.summarizedCurrentPrivs)

def ViewUsage.usage (view : ViewUsage) (privs : CoreDesc × CoreDesc) : ObjectUsage :=
  ⟨view.viewUID, view.viewOwner, .view, privs.1, privs.2⟩

/-- The recursion through the views over an object. `levels` bounds its depth: an object
below no level of views has no views over it. -/
def dealWithViews (catalog : Catalog) (table : ObjectPrivsTable) (grantorID : AuthID)
    (command : PrivCommand) :
    ℕ → ObjectUsage → List ObjectUsage → Except Status (List ObjectUsage)
  | 0, _, affected => .ok affected
  | levels + 1, usage, affected =>
    (catalog.viewsThatReferenceObject usage.objectUID).foldlM (fun affected view =>
      let privs := gatherViewPrivileges catalog table grantorID view affected
      if command = .revokeObjectRestrict ∧ .select ∉ usage.updatedPrivs.priv then
        .error (.dependentObjectsExist view.viewUID)
      else if privs.1 = privs.2 then .ok affected
      else
        dealWithViews catalog table grantorID command levels (view.usage privs)
          (affected ++ [view.usage privs])) affected

def dealWithConstraints (usage : ObjectUsage) : Except Status Unit :=
  if usage.objectType = .baseTable ∧ .references ∉ usage.updatedPrivs.priv then
    match catalog.referencingTablesForConstraints usage.objectUID with
    | [] => .ok ()
    | uid :: _ => .error (.dependentObjectsExist uid)
  else .ok ()

def getAffectedObjects (table : ObjectPrivsTable) (grantorID : AuthID)
    (usage : ObjectUsage) (command : PrivCommand) : Except Status (List ObjectUsage) :=
  (if command = .grantObject then .ok () else dealWithConstraints catalog usage) >>= fun _ =>
    dealWithViews catalog table grantorID command (catalog.levels usage.objectUID) usage [usage]

def ObjectUsage.rowKey (usage : ObjectUsage) : RowKey :=
  ⟨usage.objectUID, if usage.objectType = .view then systemAuthID else grantorID, usage.objectOwner⟩

def updateGrantedRows (listOfObjects : List ObjectUsage) : ObjectPrivsTable :=
  listOfObjects.foldl (fun table usage =>
    table.updateWhere (usage.rowKey grantorID) usage.updatedPrivs) table

/-- Writes one affected object of a revoke; a view without the select privilege is an
error, and a row without privileges is deleted. -/
def updateRevokedRow (usage : ObjectUsage) :
    Except Status ObjectPrivsTable :=
  if usage.objectType = .view ∧ .select ∉ usage.updatedPrivs.priv then
    .error (.dependentObjectsExist usage.objectUID)
  else if usage.updatedPrivs.isNull then .ok (table.erase (usage.rowKey grantorID))
  else .ok (table.updateWhere (usage.rowKey grantorID) usage.updatedPrivs)

def updateRevokedRows (listOfObjects : List ObjectUsage) : Except Status ObjectPrivsTable :=
  listOfObjects.foldlM (updateRevokedRow grantorID) table

/-! ### The commands -/

structure Object where
  objectUID : ObjectUID
  objectType : ObjectType
  deriving DecidableEq, Repr

structure Request where
  grantorID : AuthID
  granteeID : AuthID
  isAllSpecified : Bool
  privsList : List PrivWord
  deriving DecidableEq, Repr

variable (request : Request) (object : Object)

def Request.rowKey : RowKey :=
  ⟨object.objectUID, request.grantorID, request.granteeID⟩

def Request.usage (originalPrivs updatedPrivs : CoreDesc) :
    ObjectUsage :=
  ⟨object.objectUID, request.granteeID, object.objectType, originalPrivs, updatedPrivs⟩

/-- The part that both commands begin with: the requested privileges, limited to those the
grantor holds with grant option. `noPrivs` is the error for a grantor without privileges. -/
def privsToProcess (table : ObjectPrivsTable)
    (request : Request) (isWgoSpecified isGOFSpecified : Bool) (noPrivs : Status) :
    Except Status CoreDesc :=
  convertPrivsToDesc object.objectType request.isAllSpecified isWgoSpecified isGOFSpecified
      request.privsList >>= fun privs =>
    let privsOfTheGrantor :=
      getPrivsFromAllGrantors catalog table object.objectUID request.grantorID
    if privsOfTheGrantor.isNull then .error noPrivs
    else if (privs.limitToGrantable privsOfTheGrantor).isNull then .error .privilegeNotGranted
    else .ok (privs.limitToGrantable privsOfTheGrantor)

def grantPrivsToGrantee (table : ObjectPrivsTable)
    (request : Request) (privsToGrant : CoreDesc) : Except Status ObjectPrivsTable :=
  match table.lookup (request.rowKey object) with
  | none => .ok (table.insert (request.rowKey object) privsToGrant)
  | some currentPrivs =>
    if (privsToGrant.newlyGranted currentPrivs).isNull then .ok table
    else
      getAffectedObjects catalog table request.grantorID
          (request.usage object currentPrivs (privsToGrant.unionOfPrivs currentPrivs))
          .grantObject >>= fun listOfObjects =>
        .ok (updateGrantedRows request.grantorID table listOfObjects)

def grantObjectPriv (table : ObjectPrivsTable)
    (request : Request) (isWGOSpecified : Bool) : Except Status ObjectPrivsTable :=
  if object.objectUID = 0 then .error .internalError
  -- the request comes while the table of privileges itself is created
  else if object.objectUID = catalog.objectPrivileges ∧ request.grantorID = systemAuthID then
    .ok table
  else
    privsToProcess catalog object table request isWGOSpecified false .privilegeNotGranted >>=
      grantPrivsToGrantee catalog object table request

/-- Takes the privileges from the row of the grantor and the grantee. The check of the
rows that rest on this one, `checkRevokeRestrict`, is compiled out. -/
def revokePrivsFromGrantee (table : ObjectPrivsTable)
    (request : Request) (privsToRevoke : CoreDesc) : Except Status ObjectPrivsTable :=
  match table.lookup (request.rowKey object) with
  | none => .ok table
  | some currentPrivs =>
    getAffectedObjects catalog table request.grantorID
        (request.usage object currentPrivs
          (privsToRevoke.complement.intersectionOfPrivs currentPrivs))
        .revokeObjectRestrict >>=
      updateRevokedRows request.grantorID table

def revokeObjectPriv (table : ObjectPrivsTable)
    (request : Request) (isGOFSpecified : Bool) : Except Status ObjectPrivsTable :=
  if object.objectUID = 0 then .error .internalError
  else
    privsToProcess catalog object table request true isGOFSpecified .notAuthorized >>=
      revokePrivsFromGrantee catalog object table request

end Trafodion.PrivMgr
