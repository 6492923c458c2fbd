/-!
# Error numbers

The error numbers that the program returns, negated, as Linux defines them.
-/

namespace GwBot

def ENOENT : Int := 2
def EAGAIN : Int := 11
def ENOMEM : Int := 12
def EINVAL : Int := 22
def EOPNOTSUPP : Int := 95
def EOWNERDEAD : Int := 130

end GwBot
