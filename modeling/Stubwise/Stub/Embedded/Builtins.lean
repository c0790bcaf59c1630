namespace Stubwise.Embedded

def builtins : String :=
  "# Builtin classes and functions, trimmed to what inference consumes.
from typing import (
    Any,
    Generic,
    Iterable,
    Iterator,
    Mapping,
    MutableMapping,
    MutableSequence,
    MutableSet,
    AbstractSet,
    Optional,
    Self,
    Sequence,
    TypeVar,
    overload,
)

_T = TypeVar(\"_T\")
_T_co = TypeVar(\"_T_co\")
_S = TypeVar(\"_S\")
_KT = TypeVar(\"_KT\")
_VT = TypeVar(\"_VT\")
_T1 = TypeVar(\"_T1\")
_T2 = TypeVar(\"_T2\")

class object:
    __doc__: str | None
    __module__: str
    def __init__(self) -> None: ...
    def __repr__(self) -> str: ...
    def __str__(self) -> str: ...
    def __eq__(self, value: object, /) -> bool: ...
    def __ne__(self, value: object, /) -> bool: ...
    def __hash__(self) -> int: ...

class type:
    __name__: str
    __qualname__: str
    def __init__(self, o: object, /) -> None: ...
    def mro(self) -> list[type]: ...

class function:
    __name__: str
    __qualname__: str

class NoneType:
    def __bool__(self) -> bool: ...

class ellipsis: ...

class property:
    def __init__(self, fget: Any = ..., fset: Any = ...) -> None: ...

class staticmethod(Generic[_T]): ...
class classmethod(Generic[_T]): ...

class int:
    def __init__(self, x: object = ..., /) -> None: ...
    @property
    def real(self) -> int: ...
    @property
    def imag(self) -> int: ...
    def bit_length(self) -> int: ...
    def to_bytes(self, length: int = ..., byteorder: str = ...) -> bytes: ...
    def conjugate(self) -> int: ...
    def __add__(self, value: int, /) -> int: ...
    def __sub__(self, value: int, /) -> int: ...
    def __mul__(self, value: int, /) -> int: ...
    def __floordiv__(self, value: int, /) -> int: ...
    def __truediv__(self, value: int, /) -> float: ...
    def __mod__(self, value: int, /) -> int: ...
    def __pow__(self, value: int, /) -> int: ...
    def __and__(self, value: int, /) -> int: ...
    def __or__(self, value: int, /) -> int: ...
    def __xor__(self, value: int, /) -> int: ...
    def __lshift__(self, value: int, /) -> int: ...
    def __rshift__(self, value: int, /) -> int: ...
    def __radd__(self, value: int, /) -> int: ...
    def __rsub__(self, value: int, /) -> int: ...
    def __rmul__(self, value: int, /) -> int: ...
    def __neg__(self) -> int: ...
    def __pos__(self) -> int: ...
    def __invert__(self) -> int: ...
    def __abs__(self) -> int: ...
    def __lt__(self, value: int, /) -> bool: ...
    def __le__(self, value: int, /) -> bool: ...
    def __gt__(self, value: int, /) -> bool: ...
    def __ge__(self, value: int, /) -> bool: ...
    def __bool__(self) -> bool: ...
    def __index__(self) -> int: ...
    def __int__(self) -> int: ...
    def __float__(self) -> float: ...

class bool(int):
    def __init__(self, o: object = ..., /) -> None: ...
    @overload
    def __and__(self, value: bool, /) -> bool: ...
    @overload
    def __and__(self, value: int, /) -> int: ...
    @overload
    def __or__(self, value: bool, /) -> bool: ...
    @overload
    def __or__(self, value: int, /) -> int: ...

class float:
    def __init__(self, x: object = ..., /) -> None: ...
    @property
    def real(self) -> float: ...
    @property
    def imag(self) -> float: ...
    def is_integer(self) -> bool: ...
    def hex(self) -> str: ...
    def conjugate(self) -> float: ...
    def __add__(self, value: float | int, /) -> float: ...
    def __sub__(self, value: float | int, /) -> float: ...
    def __mul__(self, value: float | int, /) -> float: ...
    def __truediv__(self, value: float | int, /) -> float: ...
    def __floordiv__(self, value: float | int, /) -> float: ...
    def __mod__(self, value: float | int, /) -> float: ...
    def __pow__(self, value: float | int, /) -> float: ...
    def __radd__(self, value: float | int, /) -> float: ...
    def __rsub__(self, value: float | int, /) -> float: ...
    def __rmul__(self, value: float | int, /) -> float: ...
    def __rtruediv__(self, value: float | int, /) -> float: ...
    def __neg__(self) -> float: ...
    def __pos__(self) -> float: ...
    def __abs__(self) -> float: ...
    def __lt__(self, value: float | int, /) -> bool: ...
    def __le__(self, value: float | int, /) -> bool: ...
    def __gt__(self, value: float | int, /) -> bool: ...
    def __ge__(self, value: float | int, /) -> bool: ...
    def __bool__(self) -> bool: ...
    def __int__(self) -> int: ...
    def __float__(self) -> float: ...

class complex:
    def __init__(self, real: object = ..., imag: object = ...) -> None: ...
    @property
    def real(self) -> float: ...
    @property
    def imag(self) -> float: ...
    def conjugate(self) -> complex: ...
    def __add__(self, value: complex | float | int, /) -> complex: ...
    def __sub__(self, value: complex | float | int, /) -> complex: ...
    def __mul__(self, value: complex | float | int, /) -> complex: ...
    def __truediv__(self, value: complex | float | int, /) -> complex: ...
    def __radd__(self, value: complex | float | int, /) -> complex: ...
    def __rmul__(self, value: complex | float | int, /) -> complex: ...
    def __neg__(self) -> complex: ...
    def __abs__(self) -> float: ...

class str(Sequence[str]):
    def __init__(self, object: object = ...) -> None: ...
    def capitalize(self) -> str: ...
    def casefold(self) -> str: ...
    def center(self, width: int, fillchar: str = \" \", /) -> str: ...
    def count(self, sub: str, start: int | None = ..., end: int | None = ..., /) -> int: ...
    def encode(self, encoding: str = \"utf-8\", errors: str = \"strict\") -> bytes: ...
    def endswith(self, suffix: str | tuple[str, ...], /) -> bool: ...
    def find(self, sub: str, /) -> int: ...
    def format(self, *args: object, **kwargs: object) -> str: ...
    def index(self, sub: str, /) -> int: ...
    def isdigit(self) -> bool: ...
    def isalpha(self) -> bool: ...
    def isspace(self) -> bool: ...
    def join(self, iterable: Iterable[str], /) -> str: ...
    def lower(self) -> str: ...
    def upper(self) -> str: ...
    def strip(self, chars: str | None = None, /) -> str: ...
    def lstrip(self, chars: str | None = None, /) -> str: ...
    def rstrip(self, chars: str | None = None, /) -> str: ...
    def replace(self, old: str, new: str, count: int = -1, /) -> str: ...
    def split(self, sep: str | None = None, maxsplit: int = -1) -> list[str]: ...
    def splitlines(self, keepends: bool = False) -> list[str]: ...
    def startswith(self, prefix: str | tuple[str, ...], /) -> bool: ...
    def title(self) -> str: ...
    def zfill(self, width: int, /) -> str: ...
    def __add__(self, value: str, /) -> str: ...
    def __mul__(self, value: int, /) -> str: ...
    def __rmul__(self, value: int, /) -> str: ...
    def __mod__(self, value: Any, /) -> str: ...
    def __contains__(self, key: str, /) -> bool: ...
    def __getitem__(self, key: int | slice, /) -> str: ...
    def __iter__(self) -> Iterator[str]: ...
    def __len__(self) -> int: ...
    def __lt__(self, value: str, /) -> bool: ...
    def __le__(self, value: str, /) -> bool: ...
    def __gt__(self, value: str, /) -> bool: ...
    def __ge__(self, value: str, /) -> bool: ...

class bytes(Sequence[int]):
    def __init__(self, o: object = ..., /) -> None: ...
    def decode(self, encoding: str = \"utf-8\", errors: str = \"strict\") -> str: ...
    def hex(self) -> str: ...
    def join(self, iterable: Iterable[bytes], /) -> bytes: ...
    def __add__(self, value: bytes, /) -> bytes: ...
    def __mul__(self, value: int, /) -> bytes: ...
    @overload
    def __getitem__(self, key: int, /) -> int: ...
    @overload
    def __getitem__(self, key: slice, /) -> bytes: ...
    def __iter__(self) -> Iterator[int]: ...
    def __len__(self) -> int: ...

class slice:
    @property
    def start(self) -> Any: ...
    @property
    def stop(self) -> Any: ...
    @property
    def step(self) -> Any: ...
    def __init__(self, start: Any, stop: Any = ..., step: Any = ..., /) -> None: ...

class list(MutableSequence[_T]):
    @overload
    def __init__(self) -> None: ...
    @overload
    def __init__(self, iterable: Iterable[_T], /) -> None: ...
    def append(self, object: _T, /) -> None: ...
    def extend(self, iterable: Iterable[_T], /) -> None: ...
    def insert(self, index: int, object: _T, /) -> None: ...
    def pop(self, index: int = -1, /) -> _T: ...
    def remove(self, value: _T, /) -> None: ...
    def index(self, value: _T, /) -> int: ...
    def count(self, value: _T, /) -> int: ...
    def copy(self) -> list[_T]: ...
    def clear(self) -> None: ...
    def reverse(self) -> None: ...
    def sort(self, *, key: Any = None, reverse: bool = False) -> None: ...
    @overload
    def __getitem__(self, i: int, /) -> _T: ...
    @overload
    def __getitem__(self, s: slice, /) -> list[_T]: ...
    def __setitem__(self, key: int, value: _T, /) -> None: ...
    def __delitem__(self, key: int | slice, /) -> None: ...
    @overload
    def __add__(self, value: list[_T], /) -> list[_T]: ...
    @overload
    def __add__(self, value: list[_S], /) -> list[_S | _T]: ...
    def __iadd__(self, value: Iterable[_T], /) -> Self: ...
    def __mul__(self, value: int, /) -> list[_T]: ...
    def __iter__(self) -> Iterator[_T]: ...
    def __len__(self) -> int: ...
    def __contains__(self, key: object, /) -> bool: ...
    def __reversed__(self) -> Iterator[_T]: ...

class tuple(Sequence[_T_co]):
    def __init__(self, iterable: Iterable[_T_co] = ..., /) -> None: ...
    def __len__(self) -> int: ...
    def __contains__(self, key: object, /) -> bool: ...
    @overload
    def __getitem__(self, key: int, /) -> _T_co: ...
    @overload
    def __getitem__(self, key: slice, /) -> tuple[_T_co, ...]: ...
    def __iter__(self) -> Iterator[_T_co]: ...
    def __add__(self, value: tuple[_T_co, ...], /) -> tuple[_T_co, ...]: ...
    def count(self, value: Any, /) -> int: ...
    def index(self, value: Any, /) -> int: ...

class dict_keys(Generic[_KT, _VT]):
    def __iter__(self) -> Iterator[_KT]: ...
    def __len__(self) -> int: ...

class dict_values(Generic[_KT, _VT]):
    def __iter__(self) -> Iterator[_VT]: ...
    def __len__(self) -> int: ...

class dict_items(Generic[_KT, _VT]):
    def __iter__(self) -> Iterator[tuple[_KT, _VT]]: ...
    def __len__(self) -> int: ...

class dict(MutableMapping[_KT, _VT]):
    @overload
    def __init__(self) -> None: ...
    @overload
    def __init__(self, iterable: Iterable[tuple[_KT, _VT]], /) -> None: ...
    def keys(self) -> dict_keys[_KT, _VT]: ...
    def values(self) -> dict_values[_KT, _VT]: ...
    def items(self) -> dict_items[_KT, _VT]: ...
    @overload
    def get(self, key: _KT, default: None = None, /) -> _VT | None: ...
    @overload
    def get(self, key: _KT, default: _VT, /) -> _VT: ...
    @overload
    def get(self, key: _KT, default: _T, /) -> _VT | _T: ...
    def pop(self, key: _KT, /) -> _VT: ...
    def setdefault(self, key: _KT, default: _VT, /) -> _VT: ...
    def update(self, m: Mapping[_KT, _VT], /) -> None: ...
    def copy(self) -> dict[_KT, _VT]: ...
    def clear(self) -> None: ...
    def __getitem__(self, key: _KT, /) -> _VT: ...
    def __setitem__(self, key: _KT, value: _VT, /) -> None: ...
    def __delitem__(self, key: _KT, /) -> None: ...
    def __iter__(self) -> Iterator[_KT]: ...
    def __len__(self) -> int: ...
    def __contains__(self, key: object, /) -> bool: ...

class set(MutableSet[_T]):
    @overload
    def __init__(self) -> None: ...
    @overload
    def __init__(self, iterable: Iterable[_T], /) -> None: ...
    def add(self, element: _T, /) -> None: ...
    def discard(self, element: _T, /) -> None: ...
    def remove(self, element: _T, /) -> None: ...
    def pop(self) -> _T: ...
    def copy(self) -> set[_T]: ...
    def union(self, *s: Iterable[_T]) -> set[_T]: ...
    def intersection(self, *s: Iterable[Any]) -> set[_T]: ...
    def difference(self, *s: Iterable[Any]) -> set[_T]: ...
    def issubset(self, s: Iterable[Any], /) -> bool: ...
    def __or__(self, value: AbstractSet[_T], /) -> set[_T]: ...
    def __and__(self, value: AbstractSet[object], /) -> set[_T]: ...
    def __sub__(self, value: AbstractSet[object], /) -> set[_T]: ...
    def __iter__(self) -> Iterator[_T]: ...
    def __len__(self) -> int: ...
    def __contains__(self, o: object, /) -> bool: ...

class frozenset(AbstractSet[_T_co]):
    @overload
    def __init__(self) -> None: ...
    @overload
    def __init__(self, iterable: Iterable[_T_co], /) -> None: ...
    def copy(self) -> frozenset[_T_co]: ...
    def union(self, *s: Iterable[_T_co]) -> frozenset[_T_co]: ...
    def __iter__(self) -> Iterator[_T_co]: ...
    def __len__(self) -> int: ...
    def __contains__(self, o: object, /) -> bool: ...

class range(Sequence[int]):
    @overload
    def __init__(self, stop: int, /) -> None: ...
    @overload
    def __init__(self, start: int, stop: int, step: int = ..., /) -> None: ...
    @property
    def start(self) -> int: ...
    @property
    def stop(self) -> int: ...
    @property
    def step(self) -> int: ...
    def __iter__(self) -> Iterator[int]: ...
    def __len__(self) -> int: ...
    def __getitem__(self, key: int, /) -> int: ...

class enumerate(Iterator[tuple[int, _T]], Generic[_T]):
    def __init__(self, iterable: Iterable[_T], start: int = 0) -> None: ...
    def __iter__(self) -> Self: ...
    def __next__(self) -> tuple[int, _T]: ...

class zip(Iterator[_T_co], Generic[_T_co]):
    def __iter__(self) -> Self: ...
    def __next__(self) -> _T_co: ...

class reversed(Iterator[_T], Generic[_T]):
    def __init__(self, sequence: Sequence[_T], /) -> None: ...
    def __iter__(self) -> Self: ...
    def __next__(self) -> _T: ...

class map(Iterator[_S], Generic[_S]):
    def __init__(self, func: Any, iterable: Iterable[Any], /) -> None: ...
    def __iter__(self) -> Self: ...
    def __next__(self) -> _S: ...

class filter(Iterator[_T], Generic[_T]):
    def __init__(self, function: Any, iterable: Iterable[_T], /) -> None: ...
    def __iter__(self) -> Self: ...
    def __next__(self) -> _T: ...

class BaseException:
    args: tuple[Any, ...]
    def __init__(self, *args: object) -> None: ...
    def with_traceback(self, tb: Any, /) -> Self: ...

class Exception(BaseException): ...
class ArithmeticError(Exception): ...
class ZeroDivisionError(ArithmeticError): ...
class LookupError(Exception): ...
class IndexError(LookupError): ...
class KeyError(LookupError): ...
class TypeError(Exception): ...
class ValueError(Exception): ...
class AttributeError(Exception): ...
class NameError(Exception): ...
class RuntimeError(Exception): ...
class NotImplementedError(RuntimeError): ...
class StopIteration(Exception):
    value: Any
class OSError(Exception):
    errno: int
    strerror: str
class FileNotFoundError(OSError): ...
class AssertionError(Exception): ...
class ImportError(Exception):
    name: str | None
class KeyboardInterrupt(BaseException): ...

NotImplemented: Any
__name__: str
__file__: str
__doc__: str | None

def print(*values: object, sep: str | None = \" \", end: str | None = \"\\n\") -> None: ...
def len(obj: Any, /) -> int: ...
def isinstance(obj: object, class_or_tuple: Any, /) -> bool: ...
def issubclass(cls: type, class_or_tuple: Any, /) -> bool: ...
def hasattr(obj: object, name: str, /) -> bool: ...
def getattr(o: object, name: str, default: Any = ..., /) -> Any: ...
def setattr(obj: object, name: str, value: Any, /) -> None: ...
def id(obj: object, /) -> int: ...
def hash(obj: object, /) -> int: ...
def repr(obj: object, /) -> str: ...
def input(prompt: object = \"\", /) -> str: ...
def open(file: str, mode: str = \"r\", encoding: str | None = None) -> Any: ...
def chr(i: int, /) -> str: ...
def ord(c: str, /) -> int: ...
def callable(obj: object, /) -> bool: ...
def format(value: object, format_spec: str = \"\", /) -> str: ...
def any(iterable: Iterable[object], /) -> bool: ...
def all(iterable: Iterable[object], /) -> bool: ...
def iter(object: Iterable[_T], /) -> Iterator[_T]: ...
def sorted(iterable: Iterable[_T], /, *, key: Any = None, reverse: bool = False) -> list[_T]: ...
def vars(object: Any = ..., /) -> dict[str, Any]: ...
def dir(o: object = ..., /) -> list[str]: ...
@overload
def abs(x: int, /) -> int: ...
@overload
def abs(x: float, /) -> float: ...
@overload
def abs(x: complex, /) -> float: ...
@overload
def sum(iterable: Iterable[bool], /) -> int: ...
@overload
def sum(iterable: Iterable[_T], /) -> _T: ...
@overload
def sum(iterable: Iterable[_T], /, start: _S) -> _T | _S: ...
@overload
def min(arg1: _T, arg2: _T, /, *args: _T) -> _T: ...
@overload
def min(iterable: Iterable[_T], /) -> _T: ...
@overload
def max(arg1: _T, arg2: _T, /, *args: _T) -> _T: ...
@overload
def max(iterable: Iterable[_T], /) -> _T: ...
@overload
def next(i: Iterator[_T], /) -> _T: ...
@overload
def next(i: Iterator[_T], default: _S, /) -> _T | _S: ...
@overload
def round(number: float, ndigits: None = None) -> int: ...
@overload
def round(number: float, ndigits: int) -> float: ...
@overload
def divmod(x: int, y: int, /) -> tuple[int, int]: ...
@overload
def divmod(x: float, y: float, /) -> tuple[float, float]: ...
"

end Stubwise.Embedded
