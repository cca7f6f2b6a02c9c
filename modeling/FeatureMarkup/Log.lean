/-! What a reader reports while it works. -/
namespace FeatureMarkup

/-- How much attention an entry of the log asks for. -/
inductive Level where
  | trace
  | debug
  | info
  | warning
deriving DecidableEq, Repr

/-- One entry of the log. -/
structure Note where
  level : Level
  text : String
deriving DecidableEq, Repr

end FeatureMarkup
