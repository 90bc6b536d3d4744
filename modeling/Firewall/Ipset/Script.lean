import Firewall.Rule.Expand

/-!
# Ipset scripts

The ipset script of a configuration creates each set configured under
`ipsets`, in order, and adds its entries: `create name type [options]`, then
`add name entry` for every expansion of every entry.  Entries are expanded as
rules of their own kind: only references within the values of objects are
restricted by address family.

A fault while listing the entries of a set ends that set's entries: the
entries added so far stay, the fault is reported, and the script goes on with
the next set.  Faults in a set's type or options end the script.
-/

namespace Firewall
namespace Ipset

/-- An ipset script, with the faults met while listing entries. -/
structure Listing where
  lines : List String
  reports : List Fault
deriving Repr, DecidableEq

/-- The `create` line of a set: its type, then its options when they are set. -/
def createLine (name : String) (params : Value) : Except Fault String := do
  let setType ← params.child "type"
  let options ← params.getD "options" .null
  let head := "create " ++ name ++ " " ++ setType.text
  if options.truthy then
    match options with
    | .str o => pure (head ++ " " ++ o)
    | v => throw (.joinItem 1 v.typeName)
  else pure head

/-- The `add` lines of a set, as far as they could be listed. -/
def entryLines (tree : Value) (name : String) (params : Value) : Run String :=
  match params.child "entries" >>= Value.members with
  | .error f => Run.fail f
  | .ok entries =>
    Run.feed (fun e => Rule.expandObjects tree .other (.str ("add " ++ name ++ " " ++ e.text))) entries

/-- The ipset script of a configuration. -/
def listing (tree : Value) : Except Fault Listing := do
  let sets ← tree.getD "ipsets" (.dict [])
  let entries ← sets.entries
  entries.foldlM (fun acc (name, params) => do
    let create ← createLine name.text params
    let adds := entryLines tree name.text params
    pure ⟨acc.lines ++ create :: adds.items, acc.reports ++ adds.fault.toList⟩) ⟨[], []⟩

end Ipset
end Firewall
