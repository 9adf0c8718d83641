import Monkey.Tree.Basic

/-!
# The cache of programs

The programs of the sources that were asked for last, as many as the capacity allows. The entries
are kept in the order in which they were last asked for, the latest one first, so that the entry
that has to go when a new one comes is the last. Without capacity nothing is ever kept.
-/

namespace Monkey

structure ProgramCache where
  capacity : Nat
  entries : List (Bytes × Program)

namespace ProgramCache

/-- A cache without entries. A size below zero leaves no room. -/
def ofSize (size : Int) : ProgramCache := ⟨size.toNat, []⟩

def size (c : ProgramCache) : Nat := c.entries.length

/-- The sources that are kept, the latest one first. -/
def sources (c : ProgramCache) : List Bytes := c.entries.map Prod.fst

/-- The entries but the one of the given source. -/
def without (c : ProgramCache) (source : Bytes) : List (Bytes × Program) :=
  c.entries.filter fun entry => entry.1 != source

/-- The program of a source, if it is kept, and the cache in which it is the latest one. -/
def find? (c : ProgramCache) (source : Bytes) : Option (Program × ProgramCache) :=
  (c.entries.lookup source).map fun program =>
    (program, { c with entries := (source, program) :: c.without source })

/-- Keeps a program as the latest one. -/
def insert (c : ProgramCache) (source : Bytes) (program : Program) : ProgramCache :=
  { c with entries := ((source, program) :: c.without source).take c.capacity }

end ProgramCache

end Monkey
