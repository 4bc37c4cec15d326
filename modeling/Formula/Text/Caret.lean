/-!
# Caret diagrams

A source with a caret under one of its bytes, between two rules as wide as the source:

```text
-----
1 # 2
  ^
-----
```
-/

namespace Formula

/-- Widths count bytes, so a caret after a longer character stands to the right of its column. -/
def caretDiagram (source : String) (offset : Nat) : String :=
  let rule := String.ofList (List.replicate source.utf8ByteSize '-')
  let pad := String.ofList (List.replicate offset ' ')
  rule ++ "\n" ++ source ++ "\n" ++ pad ++ "^\n" ++ rule ++ "\n"

/-- How an error text goes on once it names a place in a source. -/
def placeText (source : String) (offset : Nat) : String :=
  ", pos [" ++ toString offset ++ ":]\n" ++ caretDiagram source offset

end Formula
