import DocTree.Bits.Field

/-! Where each attribute lies in a node's word. Every layout starts with the kind;
what follows depends on it, so kinds share the remaining bits. -/
namespace DocTree.Layout

def kind : Field := ⟨0, 8⟩

def trailingNewline : Field := kind.after 1

def textWhitespaceValid : Field := trailingNewline.after 1
def textWhitespace : Field := textWhitespaceValid.after 1
def textWhitespaceBusy : Field := textWhitespace.after 1

def renderStyle : Field := trailingNewline.after 2
def inlineCommandId : Field := renderStyle.after 16

def selfClosing : Field := trailingNewline.after 1

def paragraphWhitespaceValid : Field := kind.after 1
def paragraphWhitespace : Field := paragraphWhitespaceValid.after 1
def paragraphWhitespaceBusy : Field := paragraphWhitespace.after 1

def blockCommandId : Field := kind.after 16

def direction : Field := blockCommandId.after 2
def directionExplicit : Field := direction.after 1

def named : List (String × Field) :=
  [("KIND", kind),
    ("HAS_TRAILING_NEWLINE", trailingNewline),
    ("TEXT_WHITESPACE_VALID", textWhitespaceValid),
    ("TEXT_WHITESPACE", textWhitespace),
    ("TEXT_WHITESPACE_BUSY", textWhitespaceBusy),
    ("INLINE_RENDER_KIND", renderStyle),
    ("INLINE_COMMAND_ID", inlineCommandId),
    ("HTML_SELF_CLOSING", selfClosing),
    ("PARAGRAPH_WHITESPACE_VALID", paragraphWhitespaceValid),
    ("PARAGRAPH_WHITESPACE", paragraphWhitespace),
    ("PARAGRAPH_WHITESPACE_BUSY", paragraphWhitespaceBusy),
    ("BLOCK_COMMAND_ID", blockCommandId),
    ("PARAM_DIRECTION", direction),
    ("PARAM_DIRECTION_EXPLICIT", directionExplicit)]

def find? (name : String) : Option Field := (named.find? (·.1 == name)).map (·.2)

end DocTree.Layout
