import DocTree.Bits.Word
import DocTree.Span

/-! What every node carries: its packed word, its span, and the location a message
about it points to. -/
namespace DocTree

structure Header where
  word : Word
  location : Location
  span : Span
  deriving DecidableEq, Repr

namespace Header

def ofSpan (k : Kind) (span : Span) : Header := ⟨.ofKind k, span.start, span⟩

def kind (h : Header) : Kind := h.word.kind

def get (f : Field) (h : Header) : UInt32 := h.word.get f

def flag (f : Field) (h : Header) : Bool := h.word.flag f

def set (f : Field) (value : UInt32) (h : Header) : Header := { h with word := h.word.set f value }

def setFlag (f : Field) (value : Bool) (h : Header) : Header :=
  { h with word := h.word.setFlag f value }

def extend (stop : Location) (h : Header) : Header := { h with span := h.span.extend stop }

end Header
end DocTree
