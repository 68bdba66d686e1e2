/-
  TypeAhead.Limits — THE BOUNDS THAT EVERY ANALYSIS KEEPS.

  Fixed bounds on the size of what is read, on the depth to which rules and
  scopes nest, and on what one event of the journal may hold.  None of them is
  a preference: nothing changes them at run time.
-/
namespace TypeAhead.Limits

/-- The longest identifier, in characters. -/
def identifierLength : Nat := 512

/-- The largest string literal, quotes included, in bytes. -/
def literalBytes : Nat := 1048576

/-- The largest text that is analysed, in bytes. -/
def sourceBytes : Nat := 1048576

/-- How deep conditionals and unary operators nest. -/
def nesting : Nat := 100

/-- How many types a chain of bases, or a set of interfaces, may hold. -/
def hierarchy : Nat := 64

/-- How many scopes the bodies of sequence operators may open. -/
def scopes : Nat := 32

/-- How many events a journal keeps. -/
def journalEvents : Nat := 10000

/-- The longest message of one event, in bytes. -/
def messageBytes : Nat := 4096

/-- How many context entries one event takes. -/
def contextEntries : Nat := 32

end TypeAhead.Limits
