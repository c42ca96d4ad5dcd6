/-
# Objects of the pools (`include/PoolObjectSQL.h`)

The types of the objects of OpenNebula.  Each type is one bit of a 64-bit number, above the 32 bits
of an identifier, so that an object is written as one number, its type and its identifier.
-/
import Mathlib

/-- `PoolObjectSQL::ObjectType`. -/
inductive ObjectType where
  | none
  | vm
  | host
  | net
  | image
  | user
  | template
  | group
  | acl
  | datastore
  | cluster
  | document
  | zone
  | secgroup
  | vdc
  | vrouter
  | marketplace
  | marketplaceapp
  | vmgroup
  | vntemplate
  | hook
  | backupjob
  | scheduledaction
  deriving DecidableEq, Repr

/-- The number of a type. -/
def ObjectType.code : ObjectType → ℕ
  | .none => 0x0000000000000000
  | .vm => 0x0000001000000000
  | .host => 0x0000002000000000
  | .net => 0x0000004000000000
  | .image => 0x0000008000000000
  | .user => 0x0000010000000000
  | .template => 0x0000020000000000
  | .group => 0x0000040000000000
  | .acl => 0x0000080000000000
  | .datastore => 0x0000100000000000
  | .cluster => 0x0000200000000000
  | .document => 0x0000400000000000
  | .zone => 0x0000800000000000
  | .secgroup => 0x0001000000000000
  | .vdc => 0x0002000000000000
  | .vrouter => 0x0004000000000000
  | .marketplace => 0x0008000000000000
  | .marketplaceapp => 0x0010000000000000
  | .vmgroup => 0x0020000000000000
  | .vntemplate => 0x0040000000000000
  | .hook => 0x0080000000000000
  | .backupjob => 0x0100000000000000
  | .scheduledaction => 0x0200000000000000
