namespace Stubwise.Embedded

def typing : String :=
  "# Special forms, protocols and abstract collections.
from types import ModuleType

class _SpecialForm:
    def __getitem__(self, parameters: Any) -> object: ...

Any: _SpecialForm
Union: _SpecialForm
Optional: _SpecialForm
Literal: _SpecialForm
Callable: _SpecialForm
Generic: _SpecialForm
Protocol: _SpecialForm
Self: _SpecialForm
ClassVar: _SpecialForm
Final: _SpecialForm
NoReturn: _SpecialForm
Never: _SpecialForm

class TypeVar:
    @property
    def __name__(self) -> str: ...
    @property
    def __bound__(self) -> Any | None: ...
    def __init__(self, name: str, *constraints: Any, bound: Any | None = None) -> None: ...

_T = TypeVar(\"_T\")
_S = TypeVar(\"_S\")
_KT = TypeVar(\"_KT\")
_VT = TypeVar(\"_VT\")
_T_co = TypeVar(\"_T_co\")
_KT_co = TypeVar(\"_KT_co\")
_VT_co = TypeVar(\"_VT_co\")
_YieldT_co = TypeVar(\"_YieldT_co\")
_SendT_contra = TypeVar(\"_SendT_contra\")
_ReturnT_co = TypeVar(\"_ReturnT_co\")

def overload(func: _T) -> _T: ...
def cast(typ: Any, val: Any) -> Any: ...
def reveal_type(obj: _T, /) -> _T: ...
def get_args(tp: Any) -> tuple[Any, ...]: ...
def final(f: _T) -> _T: ...

class Sized(Protocol):
    def __len__(self) -> int: ...

class Hashable(Protocol):
    def __hash__(self) -> int: ...

class Container(Protocol[_T_co]):
    def __contains__(self, x: object, /) -> bool: ...

class Iterable(Protocol[_T_co]):
    def __iter__(self) -> Iterator[_T_co]: ...

class Iterator(Iterable[_T_co], Protocol[_T_co]):
    def __next__(self) -> _T_co: ...
    def __iter__(self) -> Iterator[_T_co]: ...

class Reversible(Iterable[_T_co], Protocol[_T_co]):
    def __reversed__(self) -> Iterator[_T_co]: ...

class Collection(Iterable[_T_co], Container[_T_co], Protocol[_T_co]):
    def __len__(self) -> int: ...

class Generator(Iterator[_YieldT_co], Generic[_YieldT_co, _SendT_contra, _ReturnT_co]):
    def __next__(self) -> _YieldT_co: ...
    def send(self, value: _SendT_contra, /) -> _YieldT_co: ...
    def close(self) -> None: ...
    def __iter__(self) -> Generator[_YieldT_co, _SendT_contra, _ReturnT_co]: ...

class Sequence(Reversible[_T_co], Collection[_T_co]):
    @overload
    def __getitem__(self, index: int) -> _T_co: ...
    @overload
    def __getitem__(self, index: slice) -> Sequence[_T_co]: ...
    def index(self, value: Any, start: int = 0, stop: int = ...) -> int: ...
    def count(self, value: Any) -> int: ...
    def __contains__(self, value: object) -> bool: ...
    def __iter__(self) -> Iterator[_T_co]: ...
    def __reversed__(self) -> Iterator[_T_co]: ...

class MutableSequence(Sequence[_T]):
    def insert(self, index: int, value: _T) -> None: ...
    def append(self, value: _T) -> None: ...
    def clear(self) -> None: ...
    def extend(self, values: Iterable[_T]) -> None: ...
    def reverse(self) -> None: ...
    def pop(self, index: int = -1) -> _T: ...
    def remove(self, value: _T) -> None: ...

class AbstractSet(Collection[_T_co]):
    def __contains__(self, x: object) -> bool: ...
    def isdisjoint(self, other: Iterable[Any]) -> bool: ...

class MutableSet(AbstractSet[_T]):
    def add(self, value: _T) -> None: ...
    def discard(self, value: _T) -> None: ...
    def clear(self) -> None: ...
    def pop(self) -> _T: ...
    def remove(self, value: _T) -> None: ...

class KeysView(AbstractSet[_KT_co]):
    def __iter__(self) -> Iterator[_KT_co]: ...

class ValuesView(Collection[_VT_co]):
    def __iter__(self) -> Iterator[_VT_co]: ...

class ItemsView(AbstractSet[tuple[_KT_co, _VT_co]]):
    def __iter__(self) -> Iterator[tuple[_KT_co, _VT_co]]: ...

class Mapping(Collection[_KT], Generic[_KT, _VT_co]):
    def __getitem__(self, key: _KT, /) -> _VT_co: ...
    @overload
    def get(self, key: _KT, /) -> _VT_co | None: ...
    @overload
    def get(self, key: _KT, /, default: _VT_co | _T) -> _VT_co | _T: ...
    def items(self) -> ItemsView[_KT, _VT_co]: ...
    def keys(self) -> KeysView[_KT]: ...
    def values(self) -> ValuesView[_VT_co]: ...
    def __contains__(self, key: object, /) -> bool: ...

class MutableMapping(Mapping[_KT, _VT]):
    def __setitem__(self, key: _KT, value: _VT, /) -> None: ...
    def __delitem__(self, key: _KT, /) -> None: ...
    def clear(self) -> None: ...
    def pop(self, key: _KT, /) -> _VT: ...
    def setdefault(self, key: _KT, default: _VT, /) -> _VT: ...
    def update(self, m: Mapping[_KT, _VT], /) -> None: ...

class SupportsInt(Protocol):
    def __int__(self) -> int: ...

class SupportsFloat(Protocol):
    def __float__(self) -> float: ...

class SupportsAbs(Protocol[_T_co]):
    def __abs__(self) -> _T_co: ...

class NamedTuple(tuple[Any, ...]): ...

TYPE_CHECKING: bool

List = list
Dict = dict
Set = set
FrozenSet = frozenset
Tuple = tuple
Type = type
Text = str
AnyStr = str
"

end Stubwise.Embedded
