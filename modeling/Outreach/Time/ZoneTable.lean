import Outreach.Time.ZoneRule

/-!
# Outreach.Time.ZoneTable

The zones that are known by name, from the time zone database, with all changes to the end of
the year 2099.
-/

namespace Outreach
namespace ZoneTable

open ZoneRule

def americaNewYork : Zone :=
  Zone.ofRules "America/New_York" (-17762)
    [once 1883 11 18 61200 (-18000), yearly 1918 3 3 .sun 25 25200 (-14400),
     yearly 1918 3 10 .sun 25 21600 (-18000), yearly 1921 21 4 .sun 24 25200 (-14400),
     yearly 1921 21 9 .sun 24 21600 (-18000), once 1942 2 9 25200 (-14400),
     yearly 1945 10 9 .sun 24 21600 (-18000), yearly 1946 28 4 .sun 24 25200 (-14400),
     yearly 1955 52 10 .sun 25 21600 (-18000), once 1974 1 6 25200 (-14400),
     once 1975 2 23 25200 (-14400), yearly 1976 11 4 .sun 24 25200 (-14400),
     yearly 1987 20 4 .sun 1 25200 (-14400), yearly 2007 93 3 .sun 8 25200 (-14400),
     yearly 2007 93 11 .sun 1 21600 (-18000)]

def americaStJohns : Zone :=
  Zone.ofRules "America/St_Johns" (-12652)
    [once 1917 4 8 19852 (-9052), once 1917 9 17 16252 (-12652), once 1918 4 14 19852 (-9052),
     once 1918 10 27 16252 (-12652), once 1919 5 6 9052 (-9052), once 1919 8 13 5452 (-12652),
     yearly 1920 15 5 .mon 2 9052 (-9052), once 1920 11 1 5452 (-12652),
     yearly 1921 5 10 .mon 25 5452 (-12652), once 1926 11 1 5452 (-12652),
     yearly 1927 8 10 .mon 25 5452 (-12652), once 1935 3 30 12652 (-12600),
     once 1935 5 6 9000 (-9000), once 1935 10 28 5400 (-12600),
     yearly 1936 7 5 .mon 9 12600 (-9000), yearly 1936 6 10 .mon 1 9000 (-12600),
     once 1945 9 30 16200 (-12600), yearly 1946 5 5 .sun 8 19800 (-9000),
     yearly 1946 5 10 .sun 2 16200 (-12600), yearly 1951 36 4 .sun 24 19800 (-9000),
     yearly 1951 9 9 .sun 24 16200 (-12600), yearly 1960 27 10 .sun 25 16200 (-12600),
     once 1987 4 5 12660 (-9000), once 1987 10 25 9060 (-12600), once 1988 4 3 12660 (-5400),
     once 1988 10 30 5460 (-12600), yearly 1989 18 4 .sun 1 12660 (-9000),
     yearly 1989 18 10 .sun 25 9060 (-12600), yearly 2007 5 3 .sun 8 12660 (-9000),
     yearly 2007 4 11 .sun 1 9060 (-12600), yearly 2011 89 11 .sun 1 16200 (-12600),
     yearly 2012 88 3 .sun 8 19800 (-9000)]

def americaSaoPaulo : Zone :=
  Zone.ofRules "America/Sao_Paulo" (-11188)
    [once 1914 1 1 11188 (-10800), once 1931 10 3 50400 (-7200), once 1932 4 1 7200 (-10800),
     once 1932 10 3 10800 (-7200), once 1933 4 1 7200 (-10800), once 1949 12 1 10800 (-7200),
     once 1950 4 16 10800 (-10800), once 1950 12 1 10800 (-7200), once 1951 4 1 7200 (-10800),
     once 1951 12 1 10800 (-7200), once 1952 4 1 7200 (-10800), once 1952 12 1 10800 (-7200),
     once 1953 3 1 7200 (-10800), once 1963 10 23 10800 (-7200), once 1964 3 1 7200 (-10800),
     once 1965 1 31 10800 (-7200), once 1965 3 31 7200 (-10800), once 1965 12 1 10800 (-7200),
     once 1966 3 1 7200 (-10800), once 1966 11 1 10800 (-7200), once 1967 3 1 7200 (-10800),
     once 1967 11 1 10800 (-7200), once 1968 3 1 7200 (-10800), once 1985 11 2 10800 (-7200),
     once 1986 3 15 7200 (-10800), once 1986 10 25 10800 (-7200), once 1987 2 14 7200 (-10800),
     once 1987 10 25 10800 (-7200), once 1988 2 7 7200 (-10800),
     yearly 1988 4 10 .sun 15 10800 (-7200), once 1989 1 29 7200 (-10800),
     once 1990 2 11 7200 (-10800), once 1991 2 17 7200 (-10800), once 1992 2 9 7200 (-10800),
     once 1992 10 25 10800 (-7200), once 1993 1 31 7200 (-10800),
     yearly 1993 3 10 .sun 11 10800 (-7200), once 1994 2 20 7200 (-10800),
     once 1995 2 19 7200 (-10800), once 1996 2 11 7200 (-10800), once 1996 10 6 10800 (-7200),
     once 1997 2 16 7200 (-10800), once 1997 10 6 10800 (-7200), once 1998 3 1 7200 (-10800),
     once 1998 10 11 10800 (-7200), once 1999 2 21 7200 (-10800), once 1999 10 3 10800 (-7200),
     once 2000 2 27 7200 (-10800), once 2000 10 8 10800 (-7200),
     yearly 2001 6 2 .sun 14 7200 (-10800), once 2001 10 14 10800 (-7200),
     once 2002 11 3 10800 (-7200), once 2003 10 19 10800 (-7200), once 2004 11 2 10800 (-7200),
     once 2005 10 16 10800 (-7200), once 2006 11 5 10800 (-7200), once 2007 2 25 7200 (-10800),
     yearly 2007 5 10 .sun 13 10800 (-7200), yearly 2008 4 2 .sun 15 7200 (-10800),
     once 2012 2 26 7200 (-10800), yearly 2012 6 10 .sun 15 10800 (-7200),
     yearly 2013 7 2 .sun 16 7200 (-10800), once 2018 11 4 10800 (-7200)]

def americaHavana : Zone :=
  Zone.ofRules "America/Havana" (-19768)
    [once 1890 1 1 19768 (-19776), once 1925 7 19 62976 (-18000), once 1928 6 10 18000 (-14400),
     once 1928 10 10 14400 (-18000), yearly 1940 3 6 .sun 1 18000 (-14400),
     yearly 1940 3 9 .sun 1 14400 (-18000), once 1945 6 3 18000 (-14400),
     once 1945 9 2 14400 (-18000), once 1946 6 2 18000 (-14400), once 1946 9 1 14400 (-18000),
     once 1965 6 1 18000 (-14400), once 1965 9 30 14400 (-18000), once 1966 5 29 18000 (-14400),
     once 1966 10 2 14400 (-18000), once 1967 4 8 18000 (-14400), once 1967 9 10 14400 (-18000),
     once 1968 4 14 18000 (-14400), once 1968 9 8 14400 (-18000),
     yearly 1969 9 4 .sun 24 18000 (-14400), yearly 1969 3 10 .sun 25 14400 (-18000),
     once 1972 10 8 14400 (-18000), once 1973 10 8 14400 (-18000),
     once 1974 10 8 14400 (-18000), yearly 1975 3 10 .sun 25 14400 (-18000),
     once 1978 5 7 18000 (-14400), yearly 1978 13 10 .sun 8 14400 (-18000),
     once 1979 3 18 18000 (-14400), once 1980 3 16 18000 (-14400),
     yearly 1981 5 5 .sun 4 18000 (-14400), yearly 1986 4 3 .sun 14 18000 (-14400),
     yearly 1990 8 4 .sun 1 18000 (-14400), yearly 1991 5 10 .sun 7 18000 (-18000),
     once 1996 10 6 18000 (-18000), once 1997 10 12 18000 (-18000),
     once 1998 3 29 18000 (-14400), yearly 1998 6 10 .sun 25 18000 (-18000),
     once 1999 3 28 18000 (-14400), yearly 2000 4 4 .sun 1 18000 (-14400),
     once 2004 3 28 18000 (-14400), yearly 2006 5 10 .sun 25 18000 (-18000),
     once 2007 3 11 18000 (-14400), once 2008 3 16 18000 (-14400), once 2009 3 8 18000 (-14400),
     once 2010 3 14 18000 (-14400), once 2011 3 20 18000 (-14400),
     once 2011 11 13 18000 (-18000), once 2012 4 1 18000 (-14400),
     yearly 2012 88 11 .sun 1 18000 (-18000), yearly 2013 87 3 .sun 8 18000 (-14400)]

def americaCaracas : Zone :=
  Zone.ofRules "America/Caracas" (-16064)
    [once 1890 1 1 16064 (-16060), once 1912 2 12 16060 (-16200), once 1965 1 1 16200 (-14400),
     once 2007 12 9 25200 (-16200), once 2016 5 1 25200 (-14400)]

def europeLondon : Zone :=
  Zone.ofRules "Europe/London" (-75)
    [once 1847 12 1 75 0, once 1916 5 21 7200 3600, once 1916 10 1 7200 0,
     once 1917 4 8 7200 3600, once 1917 9 17 7200 0, yearly 1918 3 3 .sun 24 7200 3600,
     once 1918 9 30 7200 0, once 1919 9 29 7200 0, once 1920 10 25 7200 0,
     once 1921 4 3 7200 3600, once 1921 10 3 7200 0, once 1922 3 26 7200 3600,
     once 1922 10 8 7200 0, once 1923 4 22 7200 3600, once 1923 9 16 7200 0,
     yearly 1924 3 4 .sun 13 7200 3600, once 1924 9 21 7200 0, yearly 1925 14 10 .sun 2 7200 0,
     once 1927 4 10 7200 3600, once 1928 4 22 7200 3600, once 1929 4 21 7200 3600,
     yearly 1930 3 4 .sun 13 7200 3600, once 1933 4 9 7200 3600, once 1934 4 22 7200 3600,
     yearly 1935 3 4 .sun 13 7200 3600, once 1938 4 10 7200 3600, once 1939 4 16 7200 3600,
     once 1939 11 19 7200 0, once 1940 2 25 7200 3600, once 1941 5 4 3600 7200,
     yearly 1941 3 8 .sun 9 3600 3600, yearly 1942 3 4 .sun 1 3600 7200,
     once 1944 9 17 3600 3600, once 1945 4 2 3600 7200, once 1945 7 15 3600 3600,
     once 1945 10 7 7200 0, once 1946 4 14 7200 3600, once 1946 10 6 7200 0,
     once 1947 3 16 7200 3600, once 1947 4 13 3600 7200, once 1947 8 10 3600 3600,
     once 1947 11 2 7200 0, once 1948 3 14 7200 3600, once 1948 10 31 7200 0,
     once 1949 4 3 7200 3600, once 1949 10 30 7200 0, yearly 1950 4 4 .sun 14 7200 3600,
     yearly 1950 3 10 .sun 20 7200 0, yearly 1953 8 10 .sun 1 7200 0, once 1954 4 11 7200 3600,
     once 1955 4 17 7200 3600, once 1956 4 22 7200 3600, yearly 1957 3 4 .sun 14 7200 3600,
     once 1960 4 10 7200 3600, yearly 1961 3 3 .sun 25 7200 3600,
     yearly 1961 7 10 .sun 23 7200 0, yearly 1964 4 3 .sun 16 7200 3600,
     once 1968 2 18 7200 3600, yearly 1971 5 10 .sun 25 7200 0,
     yearly 1972 9 3 .sun 15 7200 3600, yearly 1976 5 10 .sun 23 7200 0,
     yearly 1981 119 3 .sun 25 3600 3600, yearly 1981 14 10 .sun 23 3600 0,
     yearly 1995 4 10 .sun 21 3600 0, yearly 1999 101 10 .sun 25 3600 0]

def europeDublin : Zone :=
  Zone.ofRules "Europe/Dublin" (-1521)
    [once 1916 5 21 8721 2079, once 1916 10 1 8721 0, once 1917 4 8 7200 3600,
     once 1917 9 17 7200 0, yearly 1918 3 3 .sun 24 7200 3600, once 1918 9 30 7200 0,
     once 1919 9 29 7200 0, once 1920 10 25 7200 0, once 1921 4 3 7200 3600,
     once 1921 10 3 7200 0, once 1922 3 26 7200 3600, once 1922 10 8 7200 0,
     once 1923 4 22 7200 3600, once 1923 9 16 7200 0, yearly 1924 3 4 .sun 13 7200 3600,
     once 1924 9 21 7200 0, yearly 1925 14 10 .sun 2 7200 0, once 1927 4 10 7200 3600,
     once 1928 4 22 7200 3600, once 1929 4 21 7200 3600, yearly 1930 3 4 .sun 13 7200 3600,
     once 1933 4 9 7200 3600, once 1934 4 22 7200 3600, yearly 1935 3 4 .sun 13 7200 3600,
     once 1938 4 10 7200 3600, once 1939 4 16 7200 3600, once 1939 11 19 7200 0,
     once 1940 2 25 7200 3600, once 1946 10 6 7200 0, once 1947 3 16 7200 3600,
     once 1947 11 2 7200 0, once 1948 4 18 7200 3600, once 1948 10 31 7200 0,
     once 1949 4 3 7200 3600, once 1949 10 30 7200 0, yearly 1950 4 4 .sun 14 7200 3600,
     yearly 1950 3 10 .sun 20 7200 0, yearly 1953 8 10 .sun 1 7200 0, once 1954 4 11 7200 3600,
     once 1955 4 17 7200 3600, once 1956 4 22 7200 3600, yearly 1957 3 4 .sun 14 7200 3600,
     once 1960 4 10 7200 3600, yearly 1961 3 3 .sun 25 7200 3600,
     yearly 1961 7 10 .sun 23 7200 0, yearly 1964 4 3 .sun 16 7200 3600,
     once 1968 2 18 7200 3600, yearly 1971 5 10 .sun 25 7200 0,
     yearly 1972 9 3 .sun 15 7200 3600, yearly 1976 5 10 .sun 23 7200 0,
     yearly 1981 119 3 .sun 25 3600 3600, yearly 1981 14 10 .sun 23 3600 0,
     yearly 1995 4 10 .sun 21 3600 0, yearly 1999 101 10 .sun 25 3600 0]

def europeMoscow : Zone :=
  Zone.ofRules "Europe/Moscow" 9017
    [once 1916 7 2 77383 9079, once 1917 7 1 73721 12679, once 1917 12 27 73721 9079,
     once 1918 5 31 70121 16279, once 1918 9 15 73721 12679, once 1919 5 31 70121 16279,
     once 1919 7 1 0 14400, once 1919 8 15 72000 10800, once 1921 2 14 72000 14400,
     once 1921 3 20 68400 18000, once 1921 8 31 68400 14400, once 1921 9 30 72000 10800,
     once 1922 9 30 75600 7200, once 1930 6 20 79200 10800, once 1981 3 31 75600 14400,
     once 1981 9 30 72000 10800, once 1982 3 31 75600 14400, once 1982 9 30 72000 10800,
     once 1983 3 31 75600 14400, once 1983 9 30 72000 10800, once 1984 3 31 75600 14400,
     yearly 1984 7 9 .sat 23 82800 10800, yearly 1985 6 3 .sat 24 82800 14400,
     once 1991 9 29 0 7200, once 1992 1 19 0 10800, yearly 1992 20 3 .sat 24 82800 14400,
     yearly 1992 4 9 .sat 20 82800 10800, yearly 1996 15 10 .sat 24 82800 10800,
     once 2014 10 25 79200 10800]

def africaKigali : Zone :=
  Zone.ofRules "Africa/Kigali" 7818
    [once 1908 12 31 78582 7200]

def africaCairo : Zone :=
  Zone.ofRules "Africa/Cairo" 7509
    [once 1900 9 30 78891 7200, once 1940 7 14 79200 10800, once 1940 9 30 75600 7200,
     once 1941 4 14 79200 10800, once 1941 9 15 75600 7200, once 1942 3 31 79200 10800,
     once 1942 10 26 75600 7200, once 1943 3 31 79200 10800, once 1943 10 31 75600 7200,
     once 1944 3 31 79200 10800, once 1944 10 31 75600 7200, once 1945 4 15 79200 10800,
     once 1945 10 31 75600 7200, once 1957 5 9 79200 10800, once 1957 9 30 75600 7200,
     once 1958 4 30 79200 10800, once 1958 9 30 75600 7200, once 1959 4 30 82800 10800,
     once 1959 9 30 0 7200, once 1960 4 30 82800 10800, once 1960 9 30 0 7200,
     once 1961 4 30 82800 10800, once 1961 9 30 0 7200, once 1962 4 30 82800 10800,
     once 1962 9 30 0 7200, once 1963 4 30 82800 10800, once 1963 9 30 0 7200,
     once 1964 4 30 82800 10800, once 1964 9 30 0 7200, once 1965 4 30 82800 10800,
     once 1965 9 30 0 7200, once 1966 4 30 82800 10800, once 1966 10 1 0 7200,
     once 1967 4 30 82800 10800, once 1967 10 1 0 7200, once 1968 4 30 82800 10800,
     once 1968 10 1 0 7200, once 1969 4 30 82800 10800, once 1969 10 1 0 7200,
     once 1970 4 30 82800 10800, once 1970 10 1 0 7200, once 1971 4 30 82800 10800,
     once 1971 10 1 0 7200, once 1972 4 30 82800 10800, once 1972 10 1 0 7200,
     once 1973 4 30 82800 10800, once 1973 10 1 0 7200, once 1974 4 30 82800 10800,
     once 1974 10 1 0 7200, once 1975 4 30 82800 10800, once 1975 10 1 0 7200,
     once 1976 4 30 82800 10800, once 1976 10 1 0 7200, once 1977 4 30 82800 10800,
     once 1977 10 1 0 7200, once 1978 4 30 82800 10800, once 1978 10 1 0 7200,
     once 1979 4 30 82800 10800, once 1979 10 1 0 7200, once 1980 4 30 82800 10800,
     once 1980 10 1 0 7200, once 1981 4 30 82800 10800, once 1981 10 1 0 7200,
     once 1982 7 24 82800 10800, once 1982 10 1 0 7200, once 1983 7 11 82800 10800,
     once 1983 10 1 0 7200, once 1984 4 30 82800 10800, once 1984 10 1 0 7200,
     once 1985 4 30 82800 10800, once 1985 10 1 0 7200, once 1986 4 30 82800 10800,
     once 1986 10 1 0 7200, once 1987 4 30 82800 10800, once 1987 10 1 0 7200,
     once 1988 4 30 82800 10800, once 1988 10 1 0 7200, once 1989 5 5 82800 10800,
     once 1989 10 1 0 7200, once 1990 4 30 82800 10800, once 1990 10 1 0 7200,
     once 1991 4 30 82800 10800, once 1991 10 1 0 7200, once 1992 4 30 82800 10800,
     once 1992 10 1 0 7200, once 1993 4 30 82800 10800, once 1993 10 1 0 7200,
     once 1994 4 30 82800 10800, once 1994 10 1 0 7200, yearly 1995 16 4 .thu 23 79200 10800,
     yearly 1995 11 9 .thu 24 75600 7200, once 2006 9 21 75600 7200, once 2007 9 6 75600 7200,
     once 2008 8 28 75600 7200, once 2009 8 20 75600 7200, once 2010 8 10 75600 7200,
     once 2010 9 9 79200 10800, once 2010 9 30 75600 7200, once 2014 5 15 79200 10800,
     once 2014 6 26 75600 7200, once 2014 7 31 79200 10800, once 2014 9 25 75600 7200,
     yearly 2023 77 4 .thu 23 79200 10800, yearly 2023 77 10 .thu 25 75600 7200]

def africaMonrovia : Zone :=
  Zone.ofRules "Africa/Monrovia" (-2588)
    [once 1919 3 1 2588 (-2670), once 1972 1 7 2670 0]

def asiaKolkata : Zone :=
  Zone.ofRules "Asia/Kolkata" 21208
    [once 1854 6 27 65192 21200, once 1869 12 31 65200 19270, once 1905 12 31 67130 19800,
     once 1941 9 30 66600 23400, once 1942 5 14 63000 19800, once 1942 8 31 66600 23400,
     once 1945 10 14 63000 19800]

def asiaKathmandu : Zone :=
  Zone.ofRules "Asia/Kathmandu" 20476
    [once 1919 12 31 65924 19800, once 1985 12 31 66600 20700]

def asiaTehran : Zone :=
  Zone.ofRules "Asia/Tehran" 12344
    [once 1935 6 12 74056 12600, once 1977 3 21 70200 16200, once 1977 10 20 70200 14400,
     once 1978 3 24 72000 18000, once 1978 8 4 72000 14400, once 1978 11 10 72000 12600,
     once 1979 5 26 73800 16200, once 1979 9 18 70200 12600, once 1980 3 20 73800 16200,
     once 1980 9 22 70200 12600, once 1991 5 2 73800 16200, once 1991 9 21 70200 12600,
     once 1992 3 21 73800 16200, once 1992 9 21 70200 12600, once 1993 3 21 73800 16200,
     once 1993 9 21 70200 12600, once 1994 3 21 73800 16200, once 1994 9 21 70200 12600,
     once 1995 3 21 73800 16200, once 1995 9 21 70200 12600, once 1996 3 20 73800 16200,
     once 1996 9 20 70200 12600, once 1997 3 21 73800 16200, once 1997 9 21 70200 12600,
     once 1998 3 21 73800 16200, once 1998 9 21 70200 12600, once 1999 3 21 73800 16200,
     once 1999 9 21 70200 12600, once 2000 3 20 73800 16200, once 2000 9 20 70200 12600,
     once 2001 3 21 73800 16200, once 2001 9 21 70200 12600, once 2002 3 21 73800 16200,
     once 2002 9 21 70200 12600, once 2003 3 21 73800 16200, once 2003 9 21 70200 12600,
     once 2004 3 20 73800 16200, once 2004 9 20 70200 12600, once 2005 3 21 73800 16200,
     once 2005 9 21 70200 12600, once 2008 3 20 73800 16200, once 2008 9 20 70200 12600,
     once 2009 3 21 73800 16200, once 2009 9 21 70200 12600, once 2010 3 21 73800 16200,
     once 2010 9 21 70200 12600, once 2011 3 21 73800 16200, once 2011 9 21 70200 12600,
     once 2012 3 20 73800 16200, once 2012 9 20 70200 12600, once 2013 3 21 73800 16200,
     once 2013 9 21 70200 12600, once 2014 3 21 73800 16200, once 2014 9 21 70200 12600,
     once 2015 3 21 73800 16200, once 2015 9 21 70200 12600, once 2016 3 20 73800 16200,
     once 2016 9 20 70200 12600, once 2017 3 21 73800 16200, once 2017 9 21 70200 12600,
     once 2018 3 21 73800 16200, once 2018 9 21 70200 12600, once 2019 3 21 73800 16200,
     once 2019 9 21 70200 12600, once 2020 3 20 73800 16200, once 2020 9 20 70200 12600,
     once 2021 3 21 73800 16200, once 2021 9 21 70200 12600, once 2022 3 21 73800 16200,
     once 2022 9 21 70200 12600]

def asiaBeirut : Zone :=
  Zone.ofRules "Asia/Beirut" 8520
    [once 1879 12 31 77880 7200, once 1920 3 27 79200 10800, once 1920 10 24 75600 7200,
     once 1921 4 2 79200 10800, once 1921 10 2 75600 7200, once 1922 3 25 79200 10800,
     once 1922 10 7 75600 7200, once 1923 4 21 79200 10800, once 1923 9 15 75600 7200,
     once 1957 4 30 79200 10800, once 1957 9 30 75600 7200, once 1958 4 30 79200 10800,
     once 1958 9 30 75600 7200, once 1959 4 30 79200 10800, once 1959 9 30 75600 7200,
     once 1960 4 30 79200 10800, once 1960 9 30 75600 7200, once 1961 4 30 79200 10800,
     once 1961 9 30 75600 7200, once 1972 6 21 79200 10800, once 1972 9 30 75600 7200,
     once 1973 4 30 79200 10800, once 1973 9 30 75600 7200, once 1974 4 30 79200 10800,
     once 1974 9 30 75600 7200, once 1975 4 30 79200 10800, once 1975 9 30 75600 7200,
     once 1976 4 30 79200 10800, once 1976 9 30 75600 7200, once 1977 4 30 79200 10800,
     once 1977 9 30 75600 7200, once 1978 4 29 79200 10800, once 1978 9 29 75600 7200,
     once 1984 4 30 79200 10800, once 1984 10 15 75600 7200, once 1985 4 30 79200 10800,
     once 1985 10 15 75600 7200, once 1986 4 30 79200 10800, once 1986 10 15 75600 7200,
     once 1987 4 30 79200 10800, once 1987 10 15 75600 7200, once 1988 5 31 79200 10800,
     once 1988 10 15 75600 7200, once 1989 5 9 79200 10800, once 1989 10 15 75600 7200,
     once 1990 4 30 79200 10800, once 1990 10 15 75600 7200, once 1991 4 30 79200 10800,
     once 1991 10 15 75600 7200, once 1992 4 30 79200 10800, once 1992 10 3 75600 7200,
     yearly 1993 107 3 .sat 24 79200 10800, yearly 1993 6 9 .sat 22 75600 7200,
     yearly 1999 101 10 .sat 24 75600 7200]

def australiaSydney : Zone :=
  Zone.ofRules "Australia/Sydney" 36292
    [once 1895 1 31 50108 36000, once 1916 12 31 57600 39600, once 1917 3 24 57600 36000,
     once 1941 12 31 57600 39600, yearly 1942 3 3 .sat 22 57600 36000,
     once 1942 9 26 57600 39600, once 1943 10 2 57600 39600,
     yearly 1971 15 10 .sat 24 57600 39600, once 1972 2 26 57600 36000,
     yearly 1973 8 3 .sat 1 57600 36000, once 1981 2 28 57600 36000, once 1982 4 3 57600 36000,
     yearly 1983 3 3 .sat 1 57600 36000, yearly 1986 4 3 .sat 13 57600 36000,
     once 1986 10 18 57600 39600, once 1987 10 24 57600 39600,
     yearly 1988 12 10 .sat 24 57600 39600, once 1990 3 3 57600 36000,
     once 1991 3 2 57600 36000, once 1992 2 29 57600 36000, yearly 1993 3 3 .sat 1 57600 36000,
     yearly 1996 10 3 .sat 24 57600 36000, once 2000 8 26 57600 39600,
     yearly 2001 7 10 .sat 24 57600 39600, once 2006 4 1 57600 36000,
     once 2007 3 24 57600 36000, yearly 2008 4 4 .sat 1 57600 36000,
     yearly 2008 9 10 .sat 1 57600 39600, once 2012 3 31 57600 36000,
     yearly 2013 5 4 .sat 1 57600 36000, once 2017 9 30 57600 39600, once 2018 3 31 57600 36000,
     yearly 2018 5 10 .sat 1 57600 39600, yearly 2019 10 4 .sat 1 57600 36000,
     once 2023 9 30 57600 39600, yearly 2024 4 10 .sat 1 57600 39600,
     once 2028 9 30 57600 39600, once 2029 3 31 57600 36000,
     yearly 2029 5 10 .sat 1 57600 39600, yearly 2030 5 4 .sat 1 57600 36000,
     once 2034 9 30 57600 39600, once 2035 3 31 57600 36000,
     yearly 2035 10 10 .sat 1 57600 39600, yearly 2036 4 4 .sat 1 57600 36000,
     once 2040 3 31 57600 36000, yearly 2041 5 4 .sat 1 57600 36000, once 2045 9 30 57600 39600,
     once 2046 3 31 57600 36000, yearly 2046 5 10 .sat 1 57600 39600,
     yearly 2047 10 4 .sat 1 57600 36000, once 2051 9 30 57600 39600,
     yearly 2052 4 10 .sat 1 57600 39600, once 2056 9 30 57600 39600,
     once 2057 3 31 57600 36000, yearly 2057 5 10 .sat 1 57600 39600,
     yearly 2058 5 4 .sat 1 57600 36000, once 2062 9 30 57600 39600, once 2063 3 31 57600 36000,
     yearly 2063 10 10 .sat 1 57600 39600, yearly 2064 4 4 .sat 1 57600 36000,
     once 2068 3 31 57600 36000, yearly 2069 5 4 .sat 1 57600 36000, once 2073 9 30 57600 39600,
     once 2074 3 31 57600 36000, yearly 2074 5 10 .sat 1 57600 39600,
     yearly 2075 10 4 .sat 1 57600 36000, once 2079 9 30 57600 39600,
     yearly 2080 4 10 .sat 1 57600 39600, once 2084 9 30 57600 39600,
     once 2085 3 31 57600 36000, yearly 2085 5 10 .sat 1 57600 39600,
     yearly 2086 5 4 .sat 1 57600 36000, once 2090 9 30 57600 39600, once 2091 3 31 57600 36000,
     yearly 2091 9 10 .sat 1 57600 39600, yearly 2092 4 4 .sat 1 57600 36000,
     once 2096 3 31 57600 36000, yearly 2097 3 4 .sat 1 57600 36000]

def australiaLordHowe : Zone :=
  Zone.ofRules "Australia/Lord_Howe" 38180
    [once 1895 1 31 48220 36000, once 1981 2 28 50400 37800,
     yearly 1981 4 10 .sat 24 55800 41400, yearly 1982 4 3 .sat 1 52200 37800,
     once 1985 10 26 55800 39600, yearly 1986 4 3 .sat 13 54000 37800,
     once 1986 10 18 55800 39600, once 1987 10 24 55800 39600,
     yearly 1988 12 10 .sat 24 55800 39600, once 1990 3 3 54000 37800,
     once 1991 3 2 54000 37800, once 1992 2 29 54000 37800, yearly 1993 3 3 .sat 1 54000 37800,
     yearly 1996 10 3 .sat 24 54000 37800, once 2000 8 26 55800 39600,
     yearly 2001 7 10 .sat 24 55800 39600, once 2006 4 1 54000 37800,
     once 2007 3 24 54000 37800, yearly 2008 4 4 .sat 1 54000 37800,
     yearly 2008 9 10 .sat 1 55800 39600, once 2012 3 31 54000 37800,
     yearly 2013 5 4 .sat 1 54000 37800, once 2017 9 30 55800 39600, once 2018 3 31 54000 37800,
     yearly 2018 5 10 .sat 1 55800 39600, yearly 2019 10 4 .sat 1 54000 37800,
     once 2023 9 30 55800 39600, yearly 2024 4 10 .sat 1 55800 39600,
     once 2028 9 30 55800 39600, once 2029 3 31 54000 37800,
     yearly 2029 5 10 .sat 1 55800 39600, yearly 2030 5 4 .sat 1 54000 37800,
     once 2034 9 30 55800 39600, once 2035 3 31 54000 37800,
     yearly 2035 10 10 .sat 1 55800 39600, yearly 2036 4 4 .sat 1 54000 37800,
     once 2040 3 31 54000 37800, yearly 2041 5 4 .sat 1 54000 37800, once 2045 9 30 55800 39600,
     once 2046 3 31 54000 37800, yearly 2046 5 10 .sat 1 55800 39600,
     yearly 2047 10 4 .sat 1 54000 37800, once 2051 9 30 55800 39600,
     yearly 2052 4 10 .sat 1 55800 39600, once 2056 9 30 55800 39600,
     once 2057 3 31 54000 37800, yearly 2057 5 10 .sat 1 55800 39600,
     yearly 2058 5 4 .sat 1 54000 37800, once 2062 9 30 55800 39600, once 2063 3 31 54000 37800,
     yearly 2063 10 10 .sat 1 55800 39600, yearly 2064 4 4 .sat 1 54000 37800,
     once 2068 3 31 54000 37800, yearly 2069 5 4 .sat 1 54000 37800, once 2073 9 30 55800 39600,
     once 2074 3 31 54000 37800, yearly 2074 5 10 .sat 1 55800 39600,
     yearly 2075 10 4 .sat 1 54000 37800, once 2079 9 30 55800 39600,
     yearly 2080 4 10 .sat 1 55800 39600, once 2084 9 30 55800 39600,
     once 2085 3 31 54000 37800, yearly 2085 5 10 .sat 1 55800 39600,
     yearly 2086 5 4 .sat 1 54000 37800, once 2090 9 30 55800 39600, once 2091 3 31 54000 37800,
     yearly 2091 9 10 .sat 1 55800 39600, yearly 2092 4 4 .sat 1 54000 37800,
     once 2096 3 31 54000 37800, yearly 2097 3 4 .sat 1 54000 37800]

def pacificApia : Zone :=
  Zone.ofRules "Pacific/Apia" 45184
    [once 1892 7 4 41216 (-41216), once 1911 1 1 41216 (-41400), once 1950 1 1 41400 (-39600),
     once 2010 9 26 39600 (-36000), once 2011 4 2 50400 (-39600), once 2011 9 24 50400 (-36000),
     once 2011 12 30 36000 50400, once 2012 3 31 50400 46800,
     yearly 2012 9 9 .sat 23 50400 50400, yearly 2013 5 4 .sat 1 50400 46800,
     once 2018 3 31 50400 46800, yearly 2019 3 4 .sat 1 50400 46800]

def pacificKwajalein : Zone :=
  Zone.ofRules "Pacific/Kwajalein" 40160
    [once 1900 12 31 46240 39600, once 1936 12 31 46800 36000, once 1941 3 31 50400 32400,
     once 1944 2 5 54000 39600, once 1969 9 30 46800 (-43200), once 1993 8 21 43200 43200]

def pacificChatham : Zone :=
  Zone.ofRules "Pacific/Chatham" 44028
    [once 1868 11 1 42372 44100, once 1945 12 31 42300 45900, once 1974 11 2 50400 49500,
     once 1975 2 22 50400 45900, yearly 1975 14 10 .sat 24 50400 49500,
     yearly 1976 5 3 .sat 1 50400 45900, once 1981 2 28 50400 45900,
     yearly 1982 5 3 .sat 1 50400 45900, once 1987 2 28 50400 45900, once 1988 3 5 50400 45900,
     once 1989 3 4 50400 45900, yearly 1989 6 10 .sat 1 50400 49500,
     yearly 1990 18 3 .sat 14 50400 45900, once 1995 9 30 50400 49500,
     yearly 1996 4 10 .sat 1 50400 49500, once 2000 9 30 50400 49500,
     yearly 2001 5 10 .sat 1 50400 49500, yearly 2006 11 9 .sat 24 50400 49500,
     yearly 2008 4 4 .sat 1 50400 45900, once 2012 3 31 50400 45900,
     yearly 2013 5 4 .sat 1 50400 45900, yearly 2017 83 9 .sat 23 50400 49500,
     once 2018 3 31 50400 45900, yearly 2019 10 4 .sat 1 50400 45900,
     once 2029 3 31 50400 45900, yearly 2030 5 4 .sat 1 50400 45900, once 2035 3 31 50400 45900,
     yearly 2036 4 4 .sat 1 50400 45900, once 2040 3 31 50400 45900,
     yearly 2041 5 4 .sat 1 50400 45900, once 2046 3 31 50400 45900,
     yearly 2047 10 4 .sat 1 50400 45900, once 2057 3 31 50400 45900,
     yearly 2058 5 4 .sat 1 50400 45900, once 2063 3 31 50400 45900,
     yearly 2064 4 4 .sat 1 50400 45900, once 2068 3 31 50400 45900,
     yearly 2069 5 4 .sat 1 50400 45900, once 2074 3 31 50400 45900,
     yearly 2075 10 4 .sat 1 50400 45900, once 2085 3 31 50400 45900,
     yearly 2086 5 4 .sat 1 50400 45900, once 2091 3 31 50400 45900,
     yearly 2092 4 4 .sat 1 50400 45900, once 2096 3 31 50400 45900,
     yearly 2097 3 4 .sat 1 50400 45900]

def pacificKiritimati : Zone :=
  Zone.ofRules "Pacific/Kiritimati" (-37760)
    [once 1901 1 1 37760 (-38400), once 1979 10 1 38400 (-36000), once 1994 12 31 36000 50400]

def antarcticaTroll : Zone :=
  Zone.ofRules "Antarctica/Troll" 0
    [yearly 2005 95 3 .sun 25 3600 7200, yearly 2005 95 10 .sun 25 3600 0]

def etcGMTPlus12 : Zone :=
  Zone.ofRules "Etc/GMT+12" (-43200)
    []

def zones : List Zone :=
  [Zone.utc, americaNewYork, americaStJohns, americaSaoPaulo, americaHavana, americaCaracas,
   europeLondon, europeDublin, europeMoscow, africaKigali, africaCairo, africaMonrovia,
   asiaKolkata, asiaKathmandu, asiaTehran, asiaBeirut, australiaSydney, australiaLordHowe,
   pacificApia, pacificKwajalein, pacificChatham, pacificKiritimati, antarcticaTroll,
   etcGMTPlus12]

end ZoneTable

/-- The zone with this name. -/
def Zone.find? (name : String) : Option Zone :=
  ZoneTable.zones.find? fun z => z.name == name

end Outreach
