namespace Michelson

/-- What a string spells. It is `none` if an escape in it names half of a surrogate pair, which is no character. -/
abbrev JsonText := Option String

/-- A value as a reader sees it. Members of an object keep their order and may repeat, an integer is told apart from
every other number by how it is written, and a string may fail to be a text. -/
inductive Json where
  | null
  | bool (b : Bool)
  /-- A number written without fraction and exponent; `-0` is not one. -/
  | integer (n : Int)
  /-- Any other number, as it is written. -/
  | decimal (token : String)
  | string (text : JsonText)
  | array (items : List Json)
  | object (members : List (JsonText × Json))

end Michelson
