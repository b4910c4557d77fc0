import DocTree.Node.Block

/-! Nodes placed at an offset, their end worked out from their text as if it stood there
in full. The offsets are plain words: a `checked` run refuses to leave them. -/
namespace DocTree.Placed

def byteCount (text : String) : UInt32 := UInt32.ofNat text.utf8ByteSize

def add (m : Mode) (a b : UInt32) : Run UInt32 := do
  m.demand (decide (a.toNat + b.toNat < 4294967296)) .addOverflow
  return a + b

def commandId (t : CommandTable) (name : String) : Run UInt16 :=
  match t.infoByName? name with
  | some info => .ok info.id
  | none => .error (.unknownCommand name)

def text (m : Mode) (start : UInt32) (s : String) : Run Comment := do
  let stop ← add m start (byteCount s)
  return .text (.make (.valid start) (.valid stop) s)

def paragraph (m : Mode) (start : UInt32) (s : String) : Run Comment := do
  let content ← text m start s
  return .paragraph (← Paragraph.build m [content])

def block (m : Mode) (t : CommandTable) (start : UInt32) (name : String) : Run Comment := do
  let stop ← add m (← add m start 1) (byteCount name)
  return .block (.valid start) (.valid stop) (← commandId t name)

def nameAfter (m : Mode) (stop : UInt32) (name : String) : Run (List Argument) := do
  if name = "" then return []
  let start ← add m stop 1
  return [⟨⟨.valid start, .valid (← add m start (byteCount name))⟩, name⟩]

def param (m : Mode) (t : CommandTable) (start : UInt32) (name : String) : Run Comment := do
  let stop ← add m start (byteCount "\\param")
  let command := Comment.param (.valid start) (.valid stop) (← commandId t "param")
  match ← nameAfter m stop name with
  | [] => return command
  | args => return (command.modifyBase? (·.setArgs args)).getD command

def tparam (m : Mode) (t : CommandTable) (start : UInt32) (name : String) : Run Comment := do
  let stop ← add m start (byteCount "\\tparam")
  let command := Comment.tparam (.valid start) (.valid stop) (← commandId t "tparam")
  match ← nameAfter m stop name with
  | [] => return command
  | args => return (command.modifyBase? (·.setArgs args)).getD command

end DocTree.Placed
