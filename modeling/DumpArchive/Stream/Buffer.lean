/-! Reading a file through a buffer. A small request is met from the buffer, which takes in as much of
the file as it holds whenever it is empty; a large one goes past the empty buffer. -/
namespace DumpArchive

structure Buffer where
  /-- How many bytes have been taken from the file. -/
  fetched : Nat
  /-- How many of those have been handed on. -/
  taken : Nat

namespace Buffer

def empty : Buffer := ⟨0, 0⟩

def capacity : Nat := 8192

/-- A request for a number of bytes, met as far as the file of `length` bytes allows. -/
def request (length : Nat) (b : Buffer) (want : Nat) : Buffer :=
  let held := b.fetched - b.taken
  if want ≤ held then { b with taken := b.taken + want }
  else
    let missing := want - held
    let left := length - b.fetched
    if capacity ≤ missing then
      let direct := min missing left
      ⟨b.fetched + direct, b.fetched + direct⟩
    else
      let filled := min capacity left
      ⟨b.fetched + filled, b.fetched + min missing filled⟩

end Buffer
end DumpArchive
