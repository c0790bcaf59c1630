import Stubwise.Proofs.Lattice.Bases

namespace Stubwise.Registry

open List

def protocol (ref : ClassRef) (bases : List Ty) (members : Table Ty) : Declaration :=
  { cls := { ref, bases, isProtocol := true }, members }

end Stubwise.Registry
