import Vcdiff.Proofs.Faults
import Vcdiff.Proofs.Session

/-!
Tables within tables. The delta of a code table is decoded by a session, and that session reads a
header and loads a table in its turn. If loading is written as such a recursion, with the loader of
the nested session left open, it still comes to `loadTable`: the nested session is never asked for a
table that is declared, so nothing is loaded below the first level.
-/

namespace Vcdiff

section

variable (canAllocate : Nat → Bool)

/-- Decodes the delta of a code table in a session that loads its own table with `load`. -/
def decodeTableBy (load : TableLoader) (delta : Bytes) : Except Fault (Array UInt8) :=
  match ((Session.start CodeTable.default.toBytes.toArray (tableLimits canAllocate)).decodeWith
    load delta).1 with
  | .error fault => .error (if fault.kind = .limitExceeded then .decodedTableTooLarge else fault)
  | .ok bytes =>
    if bytes.size ≠ CodeTable.byteSize then .error (.decodedTableSize bytes.size) else .ok bytes

/-- Loads the table of a header. A declaration is looked into before its delta is decoded: if the
delta has a header that cannot be parsed, or one that declares a table, that is all. -/
def loadTableBy (load : TableLoader) : TableLoader := fun header =>
  match header.table with
  | none => .ok .default
  | some declared =>
    let nested := do
      let bytes ← decodeTableBy canAllocate load declared.delta
      CodeTable.ofBytes bytes.toList declared.nearSize declared.sameSize
    match FileHeader.parse (.ofBytes 0 declared.delta) with
    | .error (.invalid fault) => .error fault
    | .error (.incomplete _) => nested
    | .ok header => if header.table.isSome then .error .nestedTable else nested

end

section

variable {canAllocate : Nat → Bool} {load : TableLoader} {delta : Bytes}

/-- A session asks its loader about the header of the delta, and about nothing else. -/
lemma decodeTableBy_eq
    (h : ∀ header, FileHeader.parse (.ofBytes 0 delta) = .ok header →
      load header = plainTable header) :
    decodeTableBy canAllocate load delta = decodeTable canAllocate delta := by
  rw [decodeTableBy, Session.decodeWith_congr h]
  rfl

/-- A header that is wrong is what is wrong with the delta. -/
lemma decodeTable_of_invalid {fault : Fault}
    (h : FileHeader.parse (.ofBytes 0 delta) = .error (.invalid fault)) :
    decodeTable canAllocate delta = .error fault := by
  have hkind : fault.kind ≠ .limitExceeded := (FileHeader.ofFormat_of_parse h).1.1
  have hdecode : ((Session.start CodeTable.default.toBytes.toArray
      (tableLimits canAllocate)).decodeWith plainTable delta).1 = .error fault := by
    simp only [Session.decodeWith, Session.readHeaderWith, Session.start, h, Option.isSome_none,
      Bool.false_eq_true, if_false]
  simp only [decodeTable, hdecode, if_neg hkind]

lemma decodeTable_of_nested {header : FileHeader}
    (h : FileHeader.parse (.ofBytes 0 delta) = .ok header) (htable : header.table.isSome) :
    decodeTable canAllocate delta = .error .nestedTable := by
  have hdecode : ((Session.start CodeTable.default.toBytes.toArray
      (tableLimits canAllocate)).decodeWith plainTable delta).1 = .error .nestedTable := by
    simp only [Session.decodeWith, Session.readHeaderWith, Session.start, h, plainTable, htable,
      Option.isSome_none, Bool.false_eq_true, if_false, if_true]
  simp only [decodeTable, hdecode]
  rfl

/-- **Nesting.** Whatever the nested session would do about a header that declares a table, loading
comes to the same. In particular the recursion `load = loadTableBy load` has one solution. -/
theorem loadTableBy_eq (hload : ∀ header, header.table = none → load header = .ok .default) :
    loadTableBy canAllocate load = loadTable canAllocate := by
  funext header
  rcases htable : header.table with _ | declared
  · simp only [loadTableBy, loadTable, htable]
  · have hplain (h : ∀ nested, FileHeader.parse (.ofBytes 0 declared.delta) = .ok nested →
        nested.table = none) : decodeTableBy canAllocate load declared.delta
          = decodeTable canAllocate declared.delta := by
      refine decodeTableBy_eq fun nested hparse => ?_
      rw [hload nested (h nested hparse), plainTable, h nested hparse]
      rfl
    rcases hparse : FileHeader.parse (.ofBytes 0 declared.delta) with (missing | fault) | nested
    · -- the nested session finds the header cut off, and loads nothing
      simp only [loadTableBy, loadTable, htable, hparse,
        hplain fun nested h => by rw [hparse] at h; cases h]
    · simp only [loadTableBy, loadTable, htable, hparse, decodeTable_of_invalid hparse]
      rfl
    · rcases hnested : nested.table with _ | inner
      · simp only [loadTableBy, loadTable, htable, hparse, hnested, Option.isSome_none,
          Bool.false_eq_true, if_false, hplain fun found h => by
            rw [hparse] at h
            cases h
            exact hnested]
      · have hsome : nested.table.isSome := by rw [hnested]; rfl
        simp only [loadTableBy, loadTable, htable, hparse, hsome, if_true,
          decodeTable_of_nested hparse hsome]
        rfl

end

end Vcdiff
