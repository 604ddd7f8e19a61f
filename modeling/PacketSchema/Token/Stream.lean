import PacketSchema.Error
import PacketSchema.Token.Spot

/-! All tokens of a text in order, and how the text ends behind them. -/

namespace PacketSchema

inductive Stop where
  | finished (position : Position)
  | unexpected (position : Position) (c : Char)
deriving DecidableEq, Repr

def Stop.error? : Stop → Option SchemaError
  | finished _ => none
  | unexpected p c => some (.lexical p (.unexpected c))

structure TokenStream where
  tokens : List Token
  stop : Stop
deriving DecidableEq, Repr

namespace TokenStream

def cons (t : Token) (s : TokenStream) : TokenStream := ⟨t :: s.tokens, s.stop⟩

def ofSpot (source : String) (spot : Spot) : TokenStream :=
  match _h : spot.next source with
  | .token t after => (ofSpot source after).cons t
  | .finish spot => ⟨[], .finished ⟨source, spot.place⟩⟩
  | .unexpected c spot => ⟨[], .unexpected ⟨source, spot.place⟩ c⟩
termination_by spot.rest.length
decreasing_by exact Spot.next_token_length_lt _h

def ofText (source text : String) : TokenStream := ofSpot source ⟨.start, text.toList⟩

end TokenStream

end PacketSchema
